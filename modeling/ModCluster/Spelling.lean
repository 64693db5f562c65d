import ModCluster.Lib.AllSlots
import ModCluster.AppEdits
import ModCluster.Watchdog
import ModCluster.Alphabet

/-!
# The strings in the tables

Every string that a command stores comes from its message, from the configuration or is
one of the names the code has of its own. So the tables stay within an alphabet as long
as the messages do.
-/

open CString Slotmem Slotmem.Table

namespace ModCluster

variable {A : Alphabet} {httpd : Httpd} {mconf : Mconf}

structure Nodemess.Spelled (A : Alphabet) (m : Nodemess) : Prop where
  balancer : A.Spells m.balancer
  jvmRoute : A.Spells m.jvmRoute
  domain : A.Spells m.domain
  host : A.Spells m.host
  port : A.Spells m.port
  type : A.Spells m.type

structure Balancerinfo.Spelled (A : Alphabet) (b : Balancerinfo) : Prop where
  balancer : A.Spells b.balancer
  cookie : A.Spells b.stickySessionCookie
  path : A.Spells b.stickySessionPath

/-- The name that the server's configuration gives the balancer. -/
def Mconf.Spelled (A : Alphabet) (mconf : Mconf) : Prop := ∀ name, mconf.balancername = some name → A.Spells name

/-! ## Strings -/

theorem spells_nil : A.Spells [] := nofun

theorem Alphabet.Spells.truncate {s : Str} (h : A.Spells s) (n : Nat) : A.Spells (truncate n s) :=
  fun b hb => h b (List.mem_of_mem_take hb)

theorem Alphabet.Spells.lower {s : Str} (h : A.Spells s) : A.Spells (CString.lower s) := by
  intro b hb
  obtain ⟨c, hc, rfl⟩ := List.mem_map.mp hb
  exact A.lower c (h c hc)

theorem Alphabet.Spells.stripZone {s : Str} (h : A.Spells s) (flag : Bool) : A.Spells (stripZone flag s) := by
  induction s generalizing flag with
  | nil => exact nofun
  | cons b rest ih =>
    obtain ⟨hb, hrest⟩ := List.forall_mem_cons.mp h
    unfold ModCluster.stripZone
    split
    · exact ih hrest true
    · exact List.forall_mem_cons.mpr ⟨hb, ih hrest flag⟩

theorem Alphabet.spells_fixed {s : Str} (h : s ∈ fixedNames) : A.Spells s := A.fixed s h

theorem mem_write {m : Mem} {p : Nat} {s : List Byte} {b : Byte} (h : b ∈ write m p s) : b ∈ m ∨ b ∈ s := by
  unfold write at h
  rcases List.mem_append.mp h with h | h
  · rcases List.mem_append.mp h with h | h
    · exact Or.inl (List.mem_of_mem_take h)
    · exact Or.inr h
  · exact Or.inl (List.mem_of_mem_drop h)

theorem Alphabet.Fills.write {m : Mem} {s : List Byte} (h : A.Fills m) (hs : A.Fills s) (p : Nat) :
    A.Fills (write m p s) := by
  intro b hb
  rcases mem_write hb with hb | hb
  · exact h b hb
  · exact hs b hb

theorem Alphabet.Spells.fills {s : Str} (h : A.Spells s) : A.Fills s := fun b hb => Or.inr (h b hb)

/-! ## CONFIG messages -/

/-- What has been read of a message of the alphabet. -/
structure Parsing.Spelled (A : Alphabet) (st : Parsing) : Prop where
  mem : A.Fills st.mem
  node : st.node.mess.Spelled A
  balancer : st.balancer.Spelled A

theorem balancerHandlers_spell : ∀ f ∈ balancerHandlers, f.2.Preserves (Parsing.Spelled A) := by
  simp only [balancerHandlers, List.forall_mem_cons]
  refine ⟨?_, ?_, ?_, ?_, ?_, ?_, ?_, ?_, List.forall_mem_nil _⟩
  all_goals
    rintro val st st' ⟨hmem, hnode, hbal⟩ h
    have hv := hmem.spells val
    simp only at h
  case refine_1 =>
    split at h
    · cases h
    · cases h
      have hname := hv.lower.truncate (BALANCERSZ - 1)
      exact ⟨hmem.write hv.lower.fills val, ⟨hname, hnode.2, hnode.3, hnode.4, hnode.5, hnode.6⟩,
        ⟨hname, hbal.2, hbal.3⟩⟩
  case refine_3 =>
    split at h
    · cases h
    · cases h
      exact ⟨hmem, hnode, ⟨hbal.1, hv, hbal.3⟩⟩
  case refine_4 =>
    split at h
    · cases h
    · cases h
      exact ⟨hmem, hnode, ⟨hbal.1, hbal.2, hv⟩⟩
  all_goals
    cases h
    exact ⟨hmem, hnode, ⟨hbal.1, hbal.2, hbal.3⟩⟩

theorem hostField_spells {st : Parsing} (h : st.Spelled A) (val : Nat) :
    (hostField st val (strAt st.mem val)).Spelled A := by
  obtain ⟨hmem, hnode, hbal⟩ := h
  have hv := hmem.spells val
  have hstrip := hv.stripZone false
  unfold hostField
  split
  · refine ⟨hmem.write (fun b hb => ?_) val, ⟨hnode.1, hnode.2, hnode.3, hstrip, hnode.5, hnode.6⟩, hbal⟩
    rcases List.mem_append.mp hb with hb | hb
    · exact hstrip.fills b hb
    · exact Or.inl (List.mem_singleton.mp hb)
  · exact ⟨hmem, ⟨hnode.1, hnode.2, hnode.3, hv, hnode.5, hnode.6⟩, hbal⟩

theorem nodeHandlers_spell : ∀ f ∈ nodeHandlers httpd, f.2.Preserves (Parsing.Spelled A) := by
  simp only [nodeHandlers, List.forall_mem_cons]
  refine ⟨?_, ?_, ?_, ?_, ?_, ?_, ?_, ?_, ?_, ?_, ?_, ?_, List.forall_mem_nil _⟩
  all_goals
    intro val st st' hst h
    have hv := hst.mem.spells val
    have hnode := hst.node
    simp only at h
  case refine_3 =>
    split at h
    · cases h
    · cases h
      exact hostField_spells hst val
  case refine_1 =>
    obtain ⟨-, rfl⟩ := copyField_ok h
    exact ⟨hst.mem, ⟨hnode.1, hv, hnode.3, hnode.4, hnode.5, hnode.6⟩, hst.balancer⟩
  case refine_2 =>
    obtain ⟨-, rfl⟩ := copyField_ok h
    exact ⟨hst.mem, ⟨hnode.1, hnode.2, hv, hnode.4, hnode.5, hnode.6⟩, hst.balancer⟩
  case refine_4 =>
    obtain ⟨-, rfl⟩ := copyField_ok h
    exact ⟨hst.mem, ⟨hnode.1, hnode.2, hnode.3, hnode.4, hv, hnode.6⟩, hst.balancer⟩
  case refine_5 =>
    obtain ⟨-, rfl⟩ := copyField_ok h
    exact ⟨hst.mem, ⟨hnode.1, hnode.2, hnode.3, hnode.4, hnode.5, hv⟩, hst.balancer⟩
  case refine_8 | refine_9 | refine_11 | refine_12 =>
    obtain ⟨t, rfl⟩ := timeField_ok h
    exact ⟨hst.mem, ⟨hnode.1, hnode.2, hnode.3, hnode.4, hnode.5, hnode.6⟩, hst.balancer⟩
  all_goals
    cases h
    exact ⟨hst.mem, ⟨hnode.1, hnode.2, hnode.3, hnode.4, hnode.5, hnode.6⟩, hst.balancer⟩

theorem lists_spell : ListsPreserve (Parsing.Spelled A) := by
  intro key val st ls hst h
  obtain ⟨hmem, -⟩ := processContextAlias_ok h
  refine ⟨?_, hst.node, hst.balancer⟩
  rw [hmem]
  exact (contextAliasMem_rewritten key val st.mem).fills hst.mem

theorem defaultName_spells (h : mconf.Spelled A) : A.Spells (processConfigBalancerDefaults mconf).balancer := by
  unfold processConfigBalancerDefaults
  cases hname : mconf.balancername with
  | none => exact Alphabet.spells_fixed (by simp [fixedNames])
  | some name => exact (h name hname).lower.truncate _

theorem defaults_spell (h : mconf.Spelled A) {mem : Mem} (hmem : A.Fills mem) :
    Parsing.Spelled A {
      mem := mem
      node := processConfigNodeDefaults httpd mconf
      balancer := processConfigBalancerDefaults mconf
      contexts := []
      aliases := [] } := by
  refine ⟨hmem, ⟨defaultName_spells h, spells_nil, spells_nil, ?_, ?_, ?_⟩, ⟨defaultName_spells h, ?_, ?_⟩⟩
  all_goals exact Alphabet.spells_fixed (by simp [fixedNames, processConfigNodeDefaults, processConfigBalancerDefaults])

theorem nodeExtras_spell {m : Nodemess} (h : m.Spelled A) : (nodeExtras mconf m).Spelled A := by
  have htype : (typeExtras mconf m).Spelled A := by
    unfold typeExtras
    split
    · split
      · exact ⟨h.1, h.2, h.3, h.4, h.5, h.6⟩
      · exact h
    split
    · refine ⟨h.1, h.2, h.3, h.4, h.5, ?_⟩
      split
      · exact Alphabet.spells_fixed (by simp [fixedNames])
      split
      · exact Alphabet.spells_fixed (by simp [fixedNames])
      · exact h.6
    · exact h
  unfold nodeExtras fieldSizeExtra
  split
  · exact ⟨htype.1, htype.2, htype.3, htype.4, htype.5, htype.6⟩
  · exact htype

/-- What CONFIG takes from a message of the alphabet. -/
structure ConfigArgs.Spelled (A : Alphabet) (args : ConfigArgs) : Prop where
  node : args.node.mess.Spelled A
  balancer : args.balancer.Spelled A
  aliases : ∀ a ∈ args.aliases, A.Spells a
  contexts : ∀ c ∈ args.contexts, A.Spells c

theorem parseConfig_spelled {argv : Argv} {args : ConfigArgs} (hconf : mconf.Spelled A) (hmem : A.Fills argv.mem)
    (h : parseConfig httpd mconf argv = .ok args) : args.Spelled A := by
  unfold parseConfig at h
  split at h
  · cases h
  rename_i st hst
  have hspelled : st.Spelled A :=
    configFields_preserves balancerHandlers_spell nodeHandlers_spell lists_spell argv.ptr
      (defaults_spell hconf hmem) hst
  split at h
  · cases h
  split at h
  · cases h
  split at h
  · cases h
  cases h
  refine ⟨nodeExtras_spell hspelled.node, hspelled.balancer, fun a ha => ?_, fun c hc => ?_⟩
  · obtain ⟨s, -, rfl⟩ := List.mem_map.mp ha
    exact hspelled.mem.spells s
  · obtain ⟨s, -, rfl⟩ := List.mem_map.mp hc
    exact hspelled.mem.spells s

/-! ## Tables -/

structure Tables.Spelled (A : Alphabet) (ts : Tables) : Prop where
  nodes : ts.nodes.All (·.mess.Spelled A)
  hosts : ts.hosts.All fun h => A.Spells h.host
  contexts : ts.contexts.All fun c => A.Spells c.context
  balancers : ts.balancers.All (Balancerinfo.Spelled A)

theorem spells_removed : A.Spells REMOVED := Alphabet.spells_fixed (by simp [fixedNames])

theorem spelled_default : (default : Nodeinfo).mess.Spelled A :=
  ⟨spells_nil, spells_nil, spells_nil, spells_nil, spells_nil, spells_nil⟩

variable {ts ts' : Tables} {now : Int} {nodes : Table Nodeinfo} {cmd : ContextStatus}

theorem Tables.Spelled.setNodes (h : ts.Spelled A) (hn : nodes.All (·.mess.Spelled A)) :
    { ts with nodes := nodes }.Spelled A :=
  ⟨hn, h.hosts, h.contexts, h.balancers⟩

theorem Tables.Spelled.version (h : ts.Spelled A) : (incVersionNode ts).Spelled A :=
  ⟨h.nodes, h.hosts, h.contexts, h.balancers⟩

theorem Nodemess.Spelled.withId {m : Nodemess} (h : m.Spelled A) (id : Int) : { m with id := id }.Spelled A :=
  ⟨h.1, h.2, h.3, h.4, h.5, h.6⟩

theorem insertUpdateNode_spells {m m' : Table Nodeinfo} {node node' : Nodeinfo} {id id' : Int} {clean : Bool}
    (hm : m.All (·.mess.Spelled A)) (hnode : node.mess.Spelled A)
    (h : insertUpdateNode now m node id clean = some (m', node', id')) :
    m'.All (·.mess.Spelled A) ∧ node'.mess.Spelled A := by
  rcases insertUpdateNode_cases h with ⟨i, a, -, -, rfl, rfl, -⟩ | ⟨i, -, -, rfl, rfl, -⟩
  · exact ⟨hm.poke (hnode.withId a.mess.id) i, hnode.withId a.mess.id⟩
  · exact ⟨hm.store (hnode.withId i) i, hnode⟩

theorem insertUpdateHost_spells {m m' : Table Hostinfo} {x x' : Hostinfo} (hm : m.All fun h => A.Spells h.host)
    (hx : A.Spells x.host) (h : insertUpdateHost now m x = some (m', x')) : m'.All fun h => A.Spells h.host := by
  rcases insertUpdateHost_cases h with ⟨i, a, -, -, rfl, -⟩ | ⟨i, -, -, -, rfl, -⟩
  · refine hm.poke ?_ i
    exact hx
  · refine hm.store ?_ i
    exact hx

theorem insertUpdateContext_spells {m m' : Table Contextinfo} {c : Contextinfo}
    (hm : m.All fun c => A.Spells c.context) (hc : A.Spells c.context) (h : insertUpdateContext now m c = some m') :
    m'.All fun c => A.Spells c.context := by
  rcases insertUpdateContext_cases h with ⟨i, a, -, ha, rfl⟩ | ⟨i, -, -, -, rfl⟩
  · have hold := hm.used ha
    refine hm.poke ?_ i
    exact hold
  · refine hm.store ?_ i
    exact hc

theorem insertUpdateBalancer_spells {m m' : Table Balancerinfo} {b b' : Balancerinfo}
    (hm : m.All (Balancerinfo.Spelled A)) (hb : b.Spelled A) (h : insertUpdateBalancer now m b = some (m', b')) :
    m'.All (Balancerinfo.Spelled A) := by
  rcases insertUpdateBalancer_cases h with ⟨i, a, -, -, rfl, -⟩ | ⟨i, -, -, -, rfl, -⟩
  · refine hm.poke ?_ i
    exact ⟨hb.1, hb.2, hb.3⟩
  · refine hm.store ?_ i
    exact ⟨hb.1, hb.2, hb.3⟩

/-! ### CONFIG -/

theorem setJvmRoute_spells {route : Str} (hm : nodes.All (·.mess.Spelled A)) (hr : A.Spells route) (i : Nat) :
    (setJvmRoute nodes i route).All (·.mess.Spelled A) := by
  have h := hm.peek spelled_default i
  refine hm.poke ?_ i
  exact ⟨h.1, hr, h.3, h.4, h.5, h.6⟩

theorem renameRemoved_spells {route : Str} (hm : nodes.All (·.mess.Spelled A)) (hr : A.Spells route)
    (w : Option Nat) : (renameRemoved nodes route w).All (·.mess.Spelled A) := by
  cases w with
  | none => exact hm
  | some i =>
    unfold renameRemoved
    simp only
    split
    · exact setJvmRoute_spells hm hr i
    · exact hm

theorem reviveRemoved_spells {route : Str} (hm : nodes.All (·.mess.Spelled A)) (hr : A.Spells route)
    (w : Option Nat) : (reviveRemoved nodes route w).All (·.mess.Spelled A) := by
  cases w with
  | none => exact hm
  | some i =>
    unfold reviveRemoved
    simp only
    split
    · have h := hm.peek spelled_default i
      refine hm.poke ?_ i
      exact ⟨h.1, hr, h.3, h.4, h.5, h.6⟩
    · exact hm

theorem readNode_withId (m : Table Nodeinfo) (node : Nodeinfo) : ∃ id, (readNode m node).2 = Node.withId node id := by
  unfold readNode
  split
  · cases hf : m.first (hasRoute node.mess.jvmRoute) with
    | none =>
      rw [readBy_none (Node.locReadNode_eq node) hf]
      exact ⟨node.mess.id, rfl⟩
    | some i =>
      obtain ⟨a, ha, -, -⟩ := first_eq_some hf
      unfold readBy
      rw [doall_some (Node.locReadNode_eq node) hf ha]
      exact ⟨a.mess.id, rfl⟩
  · exact ⟨node.mess.id, rfl⟩

theorem readBalancer_spelled {m : Table Balancerinfo} {b : Balancerinfo} (h : b.Spelled A) :
    (readBalancer m b).2.Spelled A := by
  unfold readBalancer
  split
  · cases hf : m.first (sameBalancer b.balancer) with
    | none =>
      rw [readBy_none (Balancer.locReadBalancer_eq b) hf]
      exact h
    | some i =>
      obtain ⟨a, ha, -, -⟩ := first_eq_some hf
      unfold readBy
      rw [doall_some (Balancer.locReadBalancer_eq b) hf ha]
      exact ⟨h.1, h.2, h.3⟩
  · exact h

/-- What the check phase hands on. -/
def Checked.Spelled (A : Alphabet) : Checked → Prop
  | .go plan => plan.nodes.All (·.mess.Spelled A) ∧ plan.nodeinfo.mess.Spelled A
  | .fail _ => True
  | .abort nodes => nodes.All (·.mess.Spelled A)

theorem checkConfig_spelled {px : Option Proxy} {args : ConfigArgs} (hm : ts.nodes.All (·.mess.Spelled A))
    (hargs : args.Spelled A) : (checkConfig httpd ts px args).Spelled A := by
  obtain ⟨id, hid⟩ := readNode_withId ts.nodes args.node
  have hnode : (readNode ts.nodes args.node).2.mess.Spelled A := by
    rw [hid]
    exact hargs.node.withId id
  unfold checkConfig
  simp only
  split
  · trivial
  split
  · trivial
  split
  · exact ⟨reviveRemoved_spells hm hnode.jvmRoute _, hnode⟩
  split
  · exact ⟨hm, hnode⟩
  · have hren := renameRemoved_spells hm hnode.jvmRoute
      (workerNode ts.nodes (readNode ts.nodes args.node).1
        (proxyNodeGetid httpd ts px (readNode ts.nodes args.node).2.mess).2)
    unfold checkWorker reuseWorker
    simp only
    split
    · trivial
    split
    · split
      · split
        · exact hren
        · exact ⟨hren, hnode⟩
      · exact hren
    · exact hren

theorem addContexts_spells {id vid : Int} {host : Str} {contexts : List Str} (hcs : ∀ c ∈ contexts, A.Spells c)
    {m : Table Contextinfo} (hm : m.All fun c => A.Spells c.context) :
    (addContexts now id vid host contexts m).1.All fun c => A.Spells c.context := by
  induction contexts generalizing m with
  | nil => exact hm
  | cons context rest ih =>
    obtain ⟨hc, hrest⟩ := List.forall_mem_cons.mp hcs
    unfold addContexts
    split
    · rename_i m' hm'
      unfold insertUpdateContextHelper at hm'
      rw [if_neg (by decide)] at hm'
      exact ih hrest (insertUpdateContext_spells hm (hc.truncate CONTEXTSZ) hm')
    · exact ih hrest hm

theorem addAliases_spells {id vid : Int} {aliases contexts : List Str} (has : ∀ a ∈ aliases, A.Spells a)
    (hcs : ∀ c ∈ contexts, A.Spells c) (h : ts.Spelled A) : (addAliases now id contexts aliases vid ts).1.Spelled A := by
  induction aliases generalizing vid ts with
  | nil => exact h
  | cons host rest ih =>
    obtain ⟨ha, hrest⟩ := List.forall_mem_cons.mp has
    unfold addAliases
    split
    · exact ih hrest h
    · rename_i hosts x hins
      have hhosts := insertUpdateHost_spells h.hosts (ha.truncate HOSTALIASZ) hins
      exact ih hrest ⟨h.nodes, hhosts, addContexts_spells hcs h.contexts, h.balancers⟩

theorem rollback_spells {removed : Int} {old : Option Balancerinfo} (h : ts.Spelled A)
    (hold : ∀ b, old = some b → b.Spelled A) : (rollback now ts removed old).Spelled A := by
  unfold rollback
  refine ⟨?_, h.hosts, h.contexts, ?_⟩
  · split
    · exact h.nodes
    split
    · rename_i i hi
      have hp := h.nodes.peek spelled_default i
      refine h.nodes.poke ?_ i
      exact ⟨hp.1, spells_removed, hp.3, hp.4, hp.5, hp.6⟩
    · exact h.nodes
  · cases old with
    | none => exact h.balancers
    | some b =>
      simp only
      cases hins : insertUpdateBalancer now ts.balancers b with
      | none => exact h.balancers
      | some r => exact insertUpdateBalancer_spells h.balancers (hold b rfl) hins

theorem pairWorker_spells {px px' : Option Proxy} {plan : Plan} {nodeinfo : Nodeinfo} {id : Int} (h : ts.Spelled A)
    (hp : pairWorker now ts px plan nodeinfo id = some (ts', px')) : ts'.Spelled A := by
  unfold pairWorker at hp
  split at hp
  · cases hp
    exact h
  · repeat' split at hp
    all_goals cases hp
    refine h.setNodes (h.nodes.poke ?_ _)
    exact h.nodes.peek spelled_default _

theorem commitConfig_spells {px : Option Proxy} {args : ConfigArgs} {plan : Plan} (h : ts.Spelled A)
    (hargs : args.Spelled A) (hnodes : plan.nodes.All (·.mess.Spelled A)) (hinfo : plan.nodeinfo.mess.Spelled A) :
    (commitConfig now ts px args plan).tables.Spelled A := by
  have hdef : (default : Balancerinfo).Spelled A := ⟨spells_nil, spells_nil, spells_nil⟩
  unfold commitConfig
  simp only
  split
  · exact h.setNodes hnodes
  rename_i balancers b hb
  have hbal := insertUpdateBalancer_spells h.balancers (readBalancer_spelled hargs.balancer) hb
  split
  · refine rollback_spells ⟨hnodes, h.hosts, h.contexts, hbal⟩ fun old hold => ?_
    obtain ⟨i, -, rfl⟩ := Option.map_eq_some_iff.mp hold
    exact h.balancers.peek hdef i
  rename_i nodes nodeinfo id hn
  obtain ⟨hnodes', hinfo'⟩ := insertUpdateNode_spells hnodes hinfo hn
  have hts : { ts with nodes := nodes, balancers := balancers }.Spelled A := ⟨hnodes', h.hosts, h.contexts, hbal⟩
  split
  · exact hts
  rename_i ts₄ px₄ hp
  exact addAliases_spells hargs.aliases hargs.contexts (pairWorker_spells hts hp).version

theorem processConfig_spells {px : Option Proxy} {argv : Argv} (h : ts.Spelled A) (hconf : mconf.Spelled A)
    (hmem : A.Fills argv.mem) : (processConfig httpd mconf now ts px argv).tables.Spelled A := by
  unfold processConfig
  split
  · exact h
  rename_i args hparse
  have hargs := parseConfig_spelled hconf hmem hparse
  have hcheck := @checkConfig_spelled A httpd ts px args h.nodes hargs
  split
  · exact h
  · rename_i nodes heq
    rw [heq] at hcheck
    exact h.setNodes hcheck
  · rename_i plan heq
    rw [heq] at hcheck
    exact commitConfig_spells h hargs hcheck.1 hcheck.2

/-! ### Application commands -/

theorem nodeCmdContexts_spells {vhost node : Int} (ids : List Int) {m : Table Contextinfo}
    (hm : m.All fun c => A.Spells c.context) :
    (nodeCmdContexts now cmd vhost node m ids).All fun c => A.Spells c.context := by
  induction ids generalizing m with
  | nil => exact hm
  | cons id ids ih =>
    unfold nodeCmdContexts
    split
    · rename_i i hi
      have hc : A.Spells (setStatus (m.peek i) cmd).context := hm.peek spells_nil i
      simp only
      split
      · split
        · have hpoke : (m.poke i (setStatus (m.peek i) cmd)).All fun c => A.Spells c.context := by
            refine hm.poke ?_ i
            exact hc
          cases hins : insertUpdateContext now (m.poke i (setStatus (m.peek i) cmd)) (setStatus (m.peek i) cmd) with
          | none => exact ih hpoke
          | some m' => exact ih (insertUpdateContext_spells hpoke hc hins)
        · exact ih (hm.release _)
      · exact ih hm
    · exact ih hm

theorem nodeCmdHosts_spells {node : Int} (ids : List Int) (h : ts.Spelled A) :
    (nodeCmdHosts now cmd node ts ids).Spelled A := by
  induction ids generalizing ts with
  | nil => exact h
  | cons id ids ih =>
    unfold nodeCmdHosts
    split
    · simp only
      split
      · exact ih h
      · refine ih ⟨h.nodes, ?_, nodeCmdContexts_spells _ h.contexts, h.balancers⟩
        split
        · exact h.hosts.release _
        · exact h.hosts
    · exact ih h

theorem removeMark_spells {m : Table Nodeinfo} (hm : m.All (·.mess.Spelled A)) (i : Nat) :
    (removeMark now m i).All (·.mess.Spelled A) := by
  have hp := hm.peek spelled_default i
  have hmark : (m.poke i (markRemove (m.peek i))).All (·.mess.Spelled A) := by
    refine hm.poke ?_ i
    exact ⟨hp.1, hp.2, hp.3, hp.4, hp.5, hp.6⟩
  have hself := hmark.peek spelled_default i
  unfold removeMark
  simp only
  split
  · rename_i m' node id hins
    obtain ⟨hm', -⟩ := insertUpdateNode_spells hmark hself hins
    have hid := (hm'.peek spelled_default i).withId node.mess.id
    refine hm'.poke ?_ i
    exact hid
  · exact hmark

theorem processNodeCmd_spells (h : ts.Spelled A) (i : Nat) : (processNodeCmd now cmd ts i).Spelled A := by
  unfold processNodeCmd
  split
  · exact h
  have hhosts := @nodeCmdHosts_spells A ts now cmd (ts.nodes.peek i).mess.id (getIdsUsedHost ts.hosts) h
  simp only
  split
  · exact hhosts.setNodes (removeMark_spells hhosts.nodes i)
  · exact hhosts

theorem appHost_spells {node vid : Int} {host : Str} {m : Table Hostinfo} (hm : m.All fun h => A.Spells h.host)
    (hh : A.Spells host) : (appHost now cmd m node vid host).2.1.All fun h => A.Spells h.host := by
  unfold appHost
  split
  · exact hm
  split
  · exact hm
  simp only
  split
  · exact hm
  · rename_i m' x hins
    exact insertUpdateHost_spells hm (hh.truncate HOSTALIASZ) hins

theorem appContexts_spells {node vhost : Int} {contexts : List Str} (hcs : ∀ c ∈ contexts, A.Spells c)
    {m : Table Contextinfo} (hm : m.All fun c => A.Spells c.context) :
    (appContexts now cmd node vhost contexts m).1.All fun c => A.Spells c.context := by
  induction contexts generalizing m with
  | nil => exact hm
  | cons context rest ih =>
    obtain ⟨hc, hrest⟩ := List.forall_mem_cons.mp hcs
    unfold appContexts
    split
    · rename_i m' hm'
      refine ih hrest ?_
      unfold insertUpdateContextHelper at hm'
      simp only at hm'
      split at hm'
      · cases hm'
        unfold readRemoveContext
        split
        · exact hm.release _
        · exact hm
      · exact insertUpdateContext_spells hm (hc.truncate CONTEXTSZ) hm'
    · exact ih hrest hm

theorem appAliases_spells {node vid : Int} {aliases contexts : List Str} (has : ∀ a ∈ aliases, A.Spells a)
    (hcs : ∀ c ∈ contexts, A.Spells c) (h : ts.Spelled A) :
    (appAliases now cmd node contexts aliases vid ts).1.Spelled A := by
  induction aliases generalizing vid ts with
  | nil => exact h
  | cons host rest ih =>
    obtain ⟨ha, hrest⟩ := List.forall_mem_cons.mp has
    have hhost := @appHost_spells A now cmd node vid host ts.hosts h.hosts ha
    unfold appAliases
    split
    · rename_i hosts vid' heq
      rw [heq] at hhost
      exact ih hrest ⟨h.nodes, hhost, h.contexts, h.balancers⟩
    · rename_i i hosts vid' heq
      rw [heq] at hhost
      refine ih hrest ?_
      have hts : { ts with
          hosts := hosts
          contexts := (appContexts now cmd node (hosts.peek i).vhost contexts ts.contexts).1 }.Spelled A :=
        ⟨h.nodes, hhost, appContexts_spells hcs h.contexts, h.balancers⟩
      split
      · unfold dropHosts
        split
        · exact hts
        · exact ⟨hts.nodes, hts.hosts.sweep _, hts.contexts, hts.balancers⟩
      · exact hts

theorem processAppCmd_spells {filename : Str} {argv : Argv} (h : ts.Spelled A)
    (hargs : ∀ args, parseApp httpd (filename == NODE_COMMAND) argv = .ok args →
      (∀ a ∈ args.aliases, A.Spells a) ∧ ∀ c ∈ args.contexts, A.Spells c) :
    (processAppCmd httpd now ts filename argv cmd).tables.Spelled A := by
  unfold processAppCmd
  simp only
  split
  · exact h
  · exact h
  rename_i args hparse
  obtain ⟨has, hcs⟩ := hargs args hparse
  split
  · exact h
  split
  · exact h
  split
  · exact processNodeCmd_spells h.version _
  · exact appAliases_spells has hcs h.version

/-! ### Watchdogs -/

theorem locRemoveHostContext_spells (h : ts.Spelled A) (node : Int) : (locRemoveHostContext node ts).Spelled A := by
  unfold locRemoveHostContext
  split
  · exact h
  · exact ⟨h.nodes, h.hosts.sweep _, h.contexts.sweep _, h.balancers⟩

theorem removeRemovedStep_spells {wait : Int} (h : ts.Spelled A) (id : Int) :
    (removeRemovedStep httpd wait now ts id).1.Spelled A := by
  unfold removeRemovedStep
  split
  · exact h
  rename_i i hi
  have hp := h.nodes.peek spelled_default i
  simp only
  split
  · split
    · refine h.setNodes (h.nodes.poke ?_ i)
      exact hp
    · have hbump : (ts.nodes.poke i (bumpRemoveCheck (ts.nodes.peek i))).All (·.mess.Spelled A) := by
        refine h.nodes.poke ?_ i
        exact ⟨hp.1, hp.2, hp.3, hp.4, hp.5, hp.6⟩
      split
      · exact h.setNodes (hbump.release _)
      · exact h.setNodes hbump
  split
  · have hdom : { ts with domains := storeDomain httpd now ts.domains (ts.nodes.peek i).mess }.Spelled A :=
      ⟨h.nodes, h.hosts, h.contexts, h.balancers⟩
    have hrem := locRemoveHostContext_spells hdom (ts.nodes.peek i).mess.id
    refine hrem.setNodes (hrem.nodes.poke ?_ i)
    exact ⟨hp.1, spells_removed, spells_nil, hp.4, hp.5, hp.6⟩
  · exact h

theorem removeRemovedNode_spells {wait : Int} (h : ts.Spelled A) : (removeRemovedNode httpd wait now ts).Spelled A := by
  unfold removeRemovedNode
  generalize getIdsUsedNode ts.nodes = ids
  induction ids generalizing ts with
  | nil => exact h
  | cons id ids ih => exact ih (removeRemovedStep_spells h id)

theorem lbRemoveRemovedNode_spells {wait : Int} (nodeTable : List Int) (h : ts.Spelled A) :
    (lbRemoveRemovedNode wait now nodeTable ts).Spelled A := by
  induction nodeTable generalizing ts with
  | nil => exact h
  | cons id ids ih =>
    refine ih ?_
    unfold lbRemoveStep
    split
    · exact h
    rename_i i hi
    simp only
    split
    · have hrem := locRemoveHostContext_spells h (ts.nodes.peek i).mess.id
      exact hrem.setNodes (hrem.nodes.release _)
    · exact h

end ModCluster
