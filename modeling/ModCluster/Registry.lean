import ModCluster.AppEffects
import ModCluster.GuardedRuns
import ModCluster.Handler
import ModCluster.Retiring

/-!
# The registry of applications

What the tables are for: under each JVMRoute, which contexts are deployed on which aliases,
and with what status. Every command on applications is one of four operations on the
registry, and what the watchdogs do is none.
-/

open CString Slotmem Slotmem.Table

namespace ModCluster

/-! ## The registry -/

/-- By JVMRoute, alias and path. -/
abbrev Registry := Str → Str → Str → Option ContextStatus

namespace Registry

def assign (reg : Registry) (route : Str) (rows : List (Str × List Str)) (status : ContextStatus) : Registry :=
  fun r a p => if r == route && rows.any fun row => row.1 == a && row.2.contains p then some status else reg r a p

def withdraw (reg : Registry) (route : Str) (aliases contexts : List Str) : Registry :=
  fun r a p => if r == route && aliases.contains a && contexts.contains p then none else reg r a p

def setAll (reg : Registry) (route : Str) (status : ContextStatus) : Registry :=
  fun r a p => if r = route then (reg r a p).map fun _ => status else reg r a p

def drop (reg : Registry) (route : Str) : Registry :=
  fun r a p => if r = route then none else reg r a p

end Registry

/-! ## The registry that the tables hold -/

/-- The node that commands for the JVMRoute reach. -/
def addressee (ts : Tables) (route : Str) : Option Nat :=
  (readNode ts.nodes (routeNode route (-1))).1.filter fun i => !(ts.nodes.peek i).mess.remove

def deployed (ts : Tables) (node : Int) (host path : Str) : Option ContextStatus :=
  (ts.hosts.records.find? fun x => x.node == node && x.host == host).bind fun x =>
    (ts.contexts.records.find? fun c => c.node == node && c.vhost == x.vhost && c.context == path).map (·.status)

def registry (ts : Tables) : Registry :=
  fun route host path => (addressee ts route).bind fun i => deployed ts i host path

section View

variable {ts : Tables} {node : Int} {host path route : Str} {status : ContextStatus} {i : Nat}

theorem addressee_iff : addressee ts route = some i ↔ Addressed ts route i := by
  unfold addressee
  rw [Option.filter_eq_some_iff]
  simp only [Bool.not_eq_true']
  exact ⟨fun ⟨hfound, hunmarked⟩ => ⟨hfound, hunmarked⟩, fun h => ⟨h.found, h.unmarked⟩⟩

/-- The host and the context it has. -/
structure Deployed (ts : Tables) (node : Int) (host path : Str) (x : Hostinfo) (c : Contextinfo) : Prop where
  hostUsed : ∃ j, ts.hosts.used j = some x
  hostNode : x.node = node
  hostName : x.host = host
  contextUsed : ∃ j, ts.contexts.used j = some c
  contextNode : c.node = node
  vhost : c.vhost = x.vhost
  path : c.context = path

/-- A name is of one node, but for the one that nodes get on removal. -/
structure Routes (m : Table Nodeinfo) : Prop where
  unique : ∀ i j a b, m.used i = some a → m.used j = some b → a.mess.jvmRoute = b.mess.jvmRoute →
    a.mess.jvmRoute ≠ REMOVED → i = j
  removed : ∀ i a, m.used i = some a → a.mess.jvmRoute = REMOVED → a.mess.remove = true

theorem Routes.descend {m m' : Table Nodeinfo} (h : Routes m) (hd : NodesDescend m m') : Routes m' where
  unique i j n n' hn hn' heq hne := by
    obtain ⟨a, ha, hda⟩ := hd i n hn
    obtain ⟨a', ha', hda'⟩ := hd j n' hn'
    have hr := hda.jvmRoute.resolve_right fun h => hne h.1
    have hr' := hda'.jvmRoute.resolve_right fun h => hne (heq.trans h.1)
    refine h.unique i j a a' ha ha' (hr.symm.trans (heq.trans hr')) ?_
    rw [← hr]
    exact hne
  removed i n hn hr := by
    obtain ⟨a, ha, hda⟩ := hd i n hn
    rcases hda.jvmRoute with hsame | ⟨-, hmark⟩
    · exact hda.remove (h.removed i a ha (hsame.symm.trans hr))
    · exact hmark

/-- When names are told apart: of nodes, and of the hosts of a node. -/
structure Told (ts : Tables) : Prop where
  sound : Sound ts
  routes : Routes ts.nodes
  hosts : NoClash ts.hosts

theorem addressed_iff (h : Told ts) :
    Addressed ts route i ↔ ∃ a, ts.nodes.used i = some a ∧ a.mess.jvmRoute = route ∧ a.mess.remove = false := by
  have hids := h.sound.ids.nodes
  constructor
  · intro hnode
    have hfound := hnode.found
    cases hf : ts.nodes.first (hasRoute route) with
    | none =>
      rw [readNode_none rfl hf] at hfound
      cases hfound
    | some k =>
      rw [readNode_some hids rfl hf] at hfound
      cases hfound
      obtain ⟨a, ha, hr, -⟩ := first_eq_some hf
      exact ⟨a, ha, hasRoute_iff.1 hr, (congrArg (·.mess.remove) (peek_of_used ha)).symm.trans hnode.unmarked⟩
  · rintro ⟨a, ha, hroute, hremove⟩
    refine ⟨?_, (congrArg (·.mess.remove) (peek_of_used ha)).trans hremove⟩
    have hne : a.mess.jvmRoute ≠ REMOVED := by
      intro hr
      rw [h.routes.removed i a ha hr] at hremove
      cases hremove
    cases hf : ts.nodes.first (hasRoute route) with
    | none =>
      have hmiss := first_eq_none.1 hf i a ha
      rw [hasRoute_iff.2 hroute] at hmiss
      cases hmiss
    | some k =>
      obtain ⟨b, hb, hr, -⟩ := first_eq_some hf
      obtain rfl : i = k := h.routes.unique i k a b ha hb (hroute.trans (hasRoute_iff.1 hr).symm) hne
      rw [readNode_some hids rfl hf]

theorem deployed_iff (h : Told ts) :
    deployed ts node host path = some status ↔ ∃ x c, Deployed ts node host path x c ∧ c.status = status := by
  unfold deployed
  simp only [Option.bind_eq_some_iff, Option.map_eq_some_iff]
  constructor
  · rintro ⟨x, hx, c, hc, rfl⟩
    have hxmem := List.mem_of_find?_eq_some hx
    have hcmem := List.mem_of_find?_eq_some hc
    have hxkey := List.find?_some hx
    have hckey := List.find?_some hc
    simp only [Bool.and_eq_true, beq_iff_eq] at hxkey hckey
    exact ⟨x, c, ⟨mem_records.1 hxmem, hxkey.1, hxkey.2, mem_records.1 hcmem, hckey.1.1, hckey.1.2, hckey.2⟩, rfl⟩
  · rintro ⟨x, c, ⟨⟨j, hx⟩, hxn, hxh, ⟨k, hc⟩, hcn, hcv, hcp⟩, rfl⟩
    obtain ⟨y, hy⟩ : ∃ y, (ts.hosts.records.find? fun x => x.node == node && x.host == host) = some y := by
      rw [← Option.isSome_iff_exists, List.find?_isSome]
      exact ⟨x, mem_records.2 ⟨j, hx⟩, by simp [hxn, hxh]⟩
    obtain ⟨j', hy'⟩ := mem_records.1 (List.mem_of_find?_eq_some hy)
    have hykey := List.find?_some hy
    simp only [Bool.and_eq_true, beq_iff_eq] at hykey
    obtain ⟨-, rfl⟩ := h.hosts.same hx hy' (hxn.trans hykey.1.symm) (Or.inl (hxh.trans hykey.2.symm))
    obtain ⟨d, hd⟩ : ∃ d, (ts.contexts.records.find? fun c =>
        c.node == node && c.vhost == x.vhost && c.context == path) = some d := by
      rw [← Option.isSome_iff_exists, List.find?_isSome]
      exact ⟨c, mem_records.2 ⟨k, hc⟩, by simp [hcn, hcv, hcp]⟩
    obtain ⟨k', hd'⟩ := mem_records.1 (List.mem_of_find?_eq_some hd)
    have hdkey := List.find?_some hd
    simp only [Bool.and_eq_true, beq_iff_eq] at hdkey
    have hkk : k = k' := h.sound.keyed.contexts k k' c d hc hd' (Contextinfo.key_eq.2 (sameContext_iff.2
      ⟨hcp.trans hdkey.2.symm, hcv.trans hdkey.1.2.symm, hcn.trans hdkey.1.1.symm⟩))
    subst hkk
    cases hc.symm.trans hd'
    exact ⟨x, hy, c, hd, rfl⟩

end View

/-! ## What the commands do to it -/

section Effects

variable {ts ts' : Tables} {now : Int} {cmd : ContextStatus} {node n : Int} {host path : Str}
  {aliases contexts : List Str} {status : ContextStatus}

theorem onNamed_iff (h : NoClash ts.hosts) {x : Hostinfo} (hx : ∃ j, ts.hosts.used j = some x) (hnode : x.node = node) :
    OnNamed ts.hosts node aliases x.vhost ↔ x.host ∈ aliases := by
  obtain ⟨j, hx⟩ := hx
  constructor
  · rintro ⟨k, y, hy, hyn, hmem, hyv⟩
    obtain ⟨-, rfl⟩ := h.same hx hy (hnode.trans hyn.symm) (Or.inr hyv.symm)
    exact hmem
  · exact fun hmem => ⟨j, x, hx, hnode, hmem, rfl⟩

theorem carriedBy_deployed {c : Contextinfo} {x : Hostinfo} (h : Deployed ts node host path x c) :
    carriedBy ts node host path = true := by
  obtain ⟨j, hx⟩ := h.hostUsed
  obtain ⟨k, hc⟩ := h.contextUsed
  exact carriedBy_iff.2 ⟨j, x, hx, h.hostNode, h.hostName, carries_iff.2 ⟨k, c, hc, h.contextNode, h.vhost, h.path⟩⟩

theorem deployed_of_carriedBy (h : carriedBy ts node host path = true) : ∃ x c, Deployed ts node host path x c := by
  obtain ⟨j, x, hx, hxn, hxh, hcarries⟩ := carriedBy_iff.1 h
  obtain ⟨k, c, hc, hcn, hcv, hcp⟩ := carries_iff.1 hcarries
  exact ⟨x, c, ⟨j, hx⟩, hxn, hxh, ⟨k, hc⟩, hcn, hcv, hcp⟩

theorem deployed_given (hold : Told ts) (hnew : Told ts') (h : AppsGiven now cmd node aliases contexts ts ts') :
    deployed ts' n host path =
      if n = node ∧ host ∈ aliases ∧ path ∈ contexts ∧ carriedBy ts' node host path = true then some cmd
      else deployed ts n host path := by
  split
  · rename_i hnamed
    obtain ⟨rfl, ha, hp, hcarried⟩ := hnamed
    obtain ⟨x, c, hd⟩ := deployed_of_carriedBy hcarried
    refine (deployed_iff hnew).2 ⟨x, c, hd, ?_⟩
    obtain ⟨k, hc⟩ := hd.contextUsed
    refine h.status k c hc hd.contextNode (by rw [hd.path]; exact hp) ?_
    rw [hd.vhost, onNamed_iff hnew.hosts hd.hostUsed hd.hostNode, hd.hostName]
    exact ha
  · rename_i hnot
    -- What is deployed and not named keeps its records.
    have hnamed {x : Hostinfo} {c : Contextinfo} (hd : Deployed ts' n host path x c) :
        ¬ (c.node = node ∧ c.context ∈ contexts ∧ OnNamed ts'.hosts node aliases c.vhost) := by
      rintro ⟨hcn, hcp, hon⟩
      obtain rfl : n = node := hd.contextNode.symm.trans hcn
      rw [hd.vhost, onNamed_iff hnew.hosts hd.hostUsed hd.hostNode, hd.hostName] at hon
      rw [hd.path] at hcp
      exact hnot ⟨rfl, hon, hcp, carriedBy_deployed hd⟩
    refine Option.ext fun status => ?_
    rw [deployed_iff hnew, deployed_iff hold]
    constructor
    · rintro ⟨x, c, hd, rfl⟩
      obtain ⟨k, hc⟩ := hd.contextUsed
      have hcold : ts.contexts.used k = some c := by
        cases hk : ts.contexts.used k with
        | none => exact absurd ⟨(h.contexts.added k c hk hc).1, (h.contexts.added k c hk hc).2.1⟩ (hnamed hd)
        | some c₀ =>
          by_cases h₀ : c₀.node = node ∧ c₀.context ∈ contexts ∧ OnNamed ts'.hosts node aliases c₀.vhost
          · have hchanged := h.contexts.changed k c₀ hk h₀.1 h₀.2
            cases hc.symm.trans hchanged
            exact (hnamed hd h₀).elim
          · exact (h.contexts.others k c₀ hk h₀).symm.trans hc
      obtain ⟨j, y, hy, hyn, hyv⟩ := hold.sound.hosted k c hcold
      obtain ⟨j', hx⟩ := hd.hostUsed
      obtain ⟨-, rfl⟩ := hnew.hosts.same (h.hosts.stay j y hy) hx
        (hyn.trans (hd.contextNode.trans hd.hostNode.symm)) (Or.inr (hyv.trans hd.vhost))
      exact ⟨y, c, ⟨⟨j, hy⟩, hd.hostNode, hd.hostName, ⟨k, hcold⟩, hd.contextNode, hd.vhost, hd.path⟩, rfl⟩
    · rintro ⟨x, c, hd, rfl⟩
      obtain ⟨k, hc⟩ := hd.contextUsed
      obtain ⟨j, hx⟩ := hd.hostUsed
      have hx' : ∃ j, ts'.hosts.used j = some x := ⟨j, h.hosts.stay j x hx⟩
      by_cases hc' : c.node = node ∧ c.context ∈ contexts ∧ OnNamed ts'.hosts node aliases c.vhost
      · have hd' : Deployed ts' n host path x (commanded now cmd c) :=
          ⟨hx', hd.hostNode, hd.hostName, ⟨k, h.contexts.changed k c hc hc'.1 hc'.2⟩, hd.contextNode, hd.vhost, hd.path⟩
        exact (hnamed hd' hc').elim
      · exact ⟨x, c, ⟨hx', hd.hostNode, hd.hostName, ⟨k, h.contexts.others k c hc hc'⟩, hd.contextNode, hd.vhost,
          hd.path⟩, rfl⟩

theorem deployed_removed (hold : Told ts) (hnew : Told ts') (h : AppsRemoved node aliases contexts ts ts') :
    deployed ts' n host path =
      if n = node ∧ host ∈ aliases ∧ path ∈ contexts then none else deployed ts n host path := by
  have hnamed {x : Hostinfo} {c : Contextinfo} (hd : Deployed ts n host path x c) :
      (c.node = node ∧ c.context ∈ contexts ∧ OnNamed ts.hosts node aliases c.vhost) ↔
        n = node ∧ host ∈ aliases ∧ path ∈ contexts := by
    rw [hd.contextNode, hd.path, hd.vhost]
    refine and_congr_right fun hn => ?_
    rw [onNamed_iff hold.hosts hd.hostUsed (hd.hostNode.trans hn), hd.hostName, and_comm]
  have hback {x : Hostinfo} {c : Contextinfo} (hd : Deployed ts' n host path x c) : Deployed ts n host path x c := by
    obtain ⟨j, hx⟩ := hd.hostUsed
    obtain ⟨k, hc⟩ := hd.contextUsed
    exact ⟨⟨j, ((h.hosts j x).1 hx).1⟩, hd.hostNode, hd.hostName, ⟨k, ((h.contexts k c).1 hc).1⟩, hd.contextNode,
      hd.vhost, hd.path⟩
  refine Option.ext fun status => ?_
  rw [deployed_iff hnew]
  split
  · rename_i hgone
    refine iff_of_false ?_ nofun
    rintro ⟨x, c, hd, -⟩
    obtain ⟨k, hc⟩ := hd.contextUsed
    exact ((h.contexts k c).1 hc).2 ((hnamed (hback hd)).2 hgone)
  · rename_i hkept
    rw [deployed_iff hold]
    constructor
    · rintro ⟨x, c, hd, hstatus⟩
      exact ⟨x, c, hback hd, hstatus⟩
    · rintro ⟨x, c, hd, hstatus⟩
      obtain ⟨j, hx⟩ := hd.hostUsed
      obtain ⟨k, hc⟩ := hd.contextUsed
      have hc' := (h.contexts k c).2 ⟨hc, fun hgone => hkept ((hnamed hd).1 hgone)⟩
      refine ⟨x, c, ⟨⟨j, (h.hosts j x).2 ⟨hx, fun hbare => ?_⟩⟩, hd.hostNode, hd.hostName, ⟨k, hc'⟩, hd.contextNode,
        hd.vhost, hd.path⟩, hstatus⟩
      exact hbare.2.2 k c hc' ⟨hd.contextNode.trans (hd.hostNode.symm.trans hbare.1), hd.vhost⟩

theorem getIdsUsedHost_used (hok : IdsOk ts) : IdsUsed ts.hosts (getIdsUsedHost ts.hosts) := by
  rw [getIdsUsedHost_eq]
  exact idsUsed_records hok.hosts

/-- What a wildcard command makes of a context. -/
def reachedBy (now : Int) (cmd : ContextStatus) (node : Int) (vhosts : List Int) (c : Contextinfo) : Contextinfo :=
  if c.node = node ∧ c.vhost ∈ vhosts then commanded now cmd c else c

theorem reachedBy_keeps (vhosts : List Int) (c : Contextinfo) :
    (reachedBy now cmd node vhosts c).node = c.node ∧ (reachedBy now cmd node vhosts c).vhost = c.vhost ∧
      (reachedBy now cmd node vhosts c).context = c.context := by
  unfold reachedBy
  split <;> exact ⟨rfl, rfl, rfl⟩

theorem deployed_commanded (hold : Told ts) (hnew : Told ts') (hhosts : ts'.hosts = ts.hosts)
    (hcontexts : ∀ j, ts'.contexts.used j =
      (ts.contexts.used j).map (reachedBy now cmd node (vhostsOf ts.hosts node (getIdsUsedHost ts.hosts)))) :
    deployed ts' n host path =
      if n = node then (deployed ts n host path).map fun _ => cmd else deployed ts n host path := by
  have hstatus {x : Hostinfo} {c : Contextinfo} (hd : Deployed ts n host path x c) :
      (reachedBy now cmd node (vhostsOf ts.hosts node (getIdsUsedHost ts.hosts)) c).status =
        if n = node then cmd else c.status := by
    obtain ⟨j, hx⟩ := hd.hostUsed
    unfold reachedBy
    by_cases hn : n = node
    · have hmem := mem_vhostsOf hold.sound.ids.hosts hx (hd.hostNode.trans hn)
      rw [if_pos hn, if_pos ⟨hd.contextNode.trans hn, by rw [hd.vhost]; exact hmem⟩]
      rfl
    · rw [if_neg hn, if_neg fun h => hn (hd.contextNode.symm.trans h.1)]
  have hiff (status : ContextStatus) : deployed ts' n host path = some status ↔
      ∃ x c, Deployed ts n host path x c ∧ (if n = node then cmd else c.status) = status := by
    rw [deployed_iff hnew]
    constructor
    · rintro ⟨x, c', hd, rfl⟩
      obtain ⟨k, hc'⟩ := hd.contextUsed
      rw [hcontexts k] at hc'
      obtain ⟨c, hc, rfl⟩ := Option.map_eq_some_iff.1 hc'
      obtain ⟨hnode, hvhost, hpath⟩ := @reachedBy_keeps now cmd node
        (vhostsOf ts.hosts node (getIdsUsedHost ts.hosts)) c
      have hd' : Deployed ts n host path x c := ⟨by rw [← hhosts]; exact hd.hostUsed, hd.hostNode, hd.hostName, ⟨k, hc⟩,
        hnode.symm.trans hd.contextNode, hvhost.symm.trans hd.vhost, hpath.symm.trans hd.path⟩
      exact ⟨x, c, hd', (hstatus hd').symm⟩
    · rintro ⟨x, c, hd, rfl⟩
      obtain ⟨k, hc⟩ := hd.contextUsed
      obtain ⟨hnode, hvhost, hpath⟩ := @reachedBy_keeps now cmd node
        (vhostsOf ts.hosts node (getIdsUsedHost ts.hosts)) c
      refine ⟨x, _, ⟨by rw [hhosts]; exact hd.hostUsed, hd.hostNode, hd.hostName, ⟨k, ?_⟩, hnode.trans hd.contextNode,
        hvhost.trans hd.vhost, hpath.trans hd.path⟩, hstatus hd⟩
      rw [hcontexts k, hc, Option.map_some]
  refine Option.ext fun status => ?_
  rw [hiff]
  split
  · rw [Option.map_eq_some_iff]
    constructor
    · rintro ⟨x, c, hd, rfl⟩
      exact ⟨c.status, (deployed_iff hold).2 ⟨x, c, hd, rfl⟩, rfl⟩
    · rintro ⟨status₀, hd, rfl⟩
      obtain ⟨x, c, hd, -⟩ := (deployed_iff hold).1 hd
      exact ⟨x, c, hd, rfl⟩
  · exact (deployed_iff hold).symm

theorem deployed_emptied (hold : Told ts) (hnew : Told ts')
    (hhosts : ∀ j, ts'.hosts.used j = (ts.hosts.used j).filter fun x => !(x.node == node))
    (hcontexts : ∀ j, ts'.contexts.used j = (ts.contexts.used j).filter fun c =>
      !(c.node == node && decide (c.vhost ∈ vhostsOf ts.hosts node (getIdsUsedHost ts.hosts)))) :
    deployed ts' n host path = if n = node then none else deployed ts n host path := by
  refine Option.ext fun status => ?_
  rw [deployed_iff hnew]
  split
  · rename_i hn
    refine iff_of_false ?_ nofun
    rintro ⟨x, c, hd, -⟩
    obtain ⟨j, hx⟩ := hd.hostUsed
    rw [hhosts j, Option.filter_eq_some_iff] at hx
    simp [hd.hostNode, hn] at hx
  · rename_i hn
    rw [deployed_iff hold]
    constructor
    · rintro ⟨x, c, hd, hstatus⟩
      obtain ⟨j, hx⟩ := hd.hostUsed
      obtain ⟨k, hc⟩ := hd.contextUsed
      rw [hhosts j, Option.filter_eq_some_iff] at hx
      rw [hcontexts k, Option.filter_eq_some_iff] at hc
      exact ⟨x, c, ⟨⟨j, hx.1⟩, hd.hostNode, hd.hostName, ⟨k, hc.1⟩, hd.contextNode, hd.vhost, hd.path⟩, hstatus⟩
    · rintro ⟨x, c, hd, hstatus⟩
      obtain ⟨j, hx⟩ := hd.hostUsed
      obtain ⟨k, hc⟩ := hd.contextUsed
      refine ⟨x, c, ⟨⟨j, ?_⟩, hd.hostNode, hd.hostName, ⟨k, ?_⟩, hd.contextNode, hd.vhost, hd.path⟩, hstatus⟩
      · rw [hhosts j, hx, Option.filter_some, hd.hostNode]
        simp [hn]
      · rw [hcontexts k, hc, Option.filter_some, hd.contextNode]
        simp [hn]

end Effects

/-! ## Commands -/

section Commands

variable {httpd : Httpd} {ts ts' : Tables} {now : Int} {filename : Str} {argv : Argv} {cmd : ContextStatus} {i : Nat}
  {args : AppArgs} {route : Str}

theorem addressee_eq (hids : ts.nodes.IdsMatch (·.mess.id)) (route : Str) :
    addressee ts route = (ts.nodes.first (hasRoute route)).filter fun i => !(ts.nodes.peek i).mess.remove := by
  unfold addressee
  cases hf : ts.nodes.first (hasRoute route) with
  | none => rw [readNode_none rfl hf]
  | some i => rw [readNode_some hids rfl hf]

theorem Told.appCmd (h : Told ts) (httpd : Httpd) (now : Int) (filename : Str) (argv : Argv) (cmd : ContextStatus) :
    Told (processAppCmd httpd now ts filename argv cmd).tables := by
  have hedits : Edits False ts (processAppCmd httpd now ts filename argv cmd).tables :=
    processAppCmd_edits httpd now filename argv cmd h.sound.ids False.elim
  exact ⟨hedits.sound h.sound, h.routes.descend (processAppCmd_descend httpd now filename argv cmd h.sound.ids),
    processAppCmd_noClash httpd now filename argv cmd h.sound.ids h.hosts⟩

theorem Addressed.first (h : Addressed ts route i) (hids : ts.nodes.IdsMatch (·.mess.id)) :
    ts.nodes.first (hasRoute route) = some i := by
  have hfound := h.found
  cases hf : ts.nodes.first (hasRoute route) with
  | none =>
    rw [readNode_none rfl hf] at hfound
    cases hfound
  | some k =>
    rw [readNode_some hids rfl hf] at hfound
    exact hfound

theorem route_of_first {r : Str} (h : ts.nodes.first (hasRoute route) = some i)
    (h' : ts.nodes.first (hasRoute r) = some i) : r = route := by
  obtain ⟨a, ha, hname, -⟩ := first_eq_some h
  obtain ⟨a', ha', hname', -⟩ := first_eq_some h'
  cases ha.symm.trans ha'
  rw [← hasRoute_iff.1 hname, ← hasRoute_iff.1 hname']

/-- The registry of the tables, when nodes keep their names and what is deployed changes
for one of them. -/
theorem registry_ext (f : Str → Str → Option ContextStatus → Option ContextStatus) (hnodes : ts'.nodes = ts.nodes)
    (hids : ts.nodes.IdsMatch (·.mess.id)) (hnode : Addressed ts route i)
    (hdeployed : ∀ n host path, deployed ts' n host path =
      if n = (i : Int) then f host path (deployed ts n host path) else deployed ts n host path) (r host path : Str) :
    registry ts' r host path =
      if r = route then f host path (registry ts r host path) else registry ts r host path := by
  have haddressee : addressee ts' r = addressee ts r := by
    unfold addressee
    rw [hnodes]
  unfold registry
  rw [haddressee]
  split
  · rename_i hr
    rw [hr, addressee_iff.2 hnode, Option.bind_some, Option.bind_some, hdeployed, if_pos rfl]
  · rename_i hr
    cases hk : addressee ts r with
    | none => rfl
    | some k =>
      have hki : (k : Int) ≠ i := by
        intro heq
        obtain rfl : k = i := by omega
        exact hr (route_of_first (hnode.first hids) ((addressee_iff.1 hk).first hids))
      rw [Option.bind_some, Option.bind_some, hdeployed, if_neg hki]

theorem registry_marked {a : Nodeinfo} (ha : ts.nodes.used i = some a) (hids : ts.nodes.IdsMatch (·.mess.id))
    (hids' : ts'.nodes.IdsMatch (·.mess.id)) (hnodes : ts'.nodes = ts.nodes.poke i (removedAt now a))
    (hnode : Addressed ts route i)
    (hdeployed : ∀ n host path, deployed ts' n host path =
      if n = (i : Int) then none else deployed ts n host path) : registry ts' = (registry ts).drop route := by
  have hfirst (r : Str) : ts'.nodes.first (hasRoute r) = ts.nodes.first (hasRoute r) := by
    rw [hnodes]
    exact first_poke ha rfl
  have hmark : (ts'.nodes.peek i).mess.remove = true := by
    rw [hnodes, peek_poke_self _ (used_lt ha)]
    rfl
  funext r host path
  unfold registry Registry.drop
  simp only
  rw [addressee_eq hids', addressee_eq hids, hfirst]
  by_cases hr : r = route
  · rw [hr, hnode.first hids, if_pos rfl, Option.filter_some, hmark]
    rfl
  · rw [if_neg hr]
    cases hk : ts.nodes.first (hasRoute r) with
    | none => rfl
    | some k =>
      have hki : i ≠ k := by
        rintro rfl
        exact hr (route_of_first (hnode.first hids) hk)
      have hpeek : ts'.nodes.peek k = ts.nodes.peek k := by rw [hnodes, peek_poke_ne _ hki]
      rw [Option.filter_some, Option.filter_some, hpeek]
      split
      · rw [Option.bind_some, Option.bind_some, hdeployed, if_neg (by omega)]
      · rfl

theorem Told.version (h : Told ts) : Told (incVersionNode ts) := by
  have hedits : Edits False ts (incVersionNode ts) := (Edit.version _).single
  exact ⟨hedits.sound h.sound, h.routes, h.hosts⟩

theorem processAppCmd_eq (now : Int) (cmd : ContextStatus)
    (hargs : parseApp httpd (filename == NODE_COMMAND) argv = .ok args)
    (hnode : Addressed ts args.jvmRoute i) (hid : (ts.nodes.peek i).mess.id = i) :
    processAppCmd httpd now ts filename argv cmd =
      if filename == NODE_COMMAND then
        { tables := processNodeCmd now cmd (incVersionNode ts) i
          outcome := .done
          response := none
          locks := [.lock, .unlock] }
      else
        { tables := (appAliases now cmd i args.contexts args.aliases 0 (incVersionNode ts)).1
          outcome := .done
          response := some (printAppCmdResponse httpd cmd args.jvmRoute args.aliases args.contexts
            (appAliases now cmd i args.contexts args.aliases 0 (incVersionNode ts)).2)
          locks := [.lock, .unlock] } := by
  unfold processAppCmd
  simp only [hargs, hnode.found, hnode.unmarked, hid, Bool.false_eq_true, if_false]

theorem Addressed.id (hnode : Addressed ts route i) (hids : ts.nodes.IdsMatch (·.mess.id)) :
    (ts.nodes.peek i).mess.id = i ∧ NodeKnown ts i := by
  obtain ⟨a, ha, -, hid⟩ := hnode.node hids
  exact ⟨(congrArg (·.mess.id) (peek_of_used ha)).trans hid, i, a, ha, rfl⟩

theorem any_listed {aliases contexts : List Str} {f : Str → Str → Bool} {host path : Str} :
    ((aliases.map fun a => (a, contexts.filter (f a))).any fun row => row.1 == host && row.2.contains path) = true ↔
      host ∈ aliases ∧ path ∈ contexts ∧ f host path = true := by
  simp only [List.any_eq_true, List.mem_map, Bool.and_eq_true, beq_iff_eq, List.contains_iff_mem]
  constructor
  · rintro ⟨_, ⟨a, ha, rfl⟩, rfl, hmem⟩
    exact ⟨ha, List.mem_filter.1 hmem⟩
  · exact fun ⟨ha, hmem⟩ => ⟨_, ⟨host, ha, rfl⟩, rfl, List.mem_filter.2 hmem⟩

theorem registry_given (h : Told ts) (hcmd : cmd ≠ .remove) (hargs : parseApp httpd false argv = .ok args)
    (hnode : Addressed ts args.jvmRoute i) (hfile : (filename == NODE_COMMAND) = false) :
    ∃ f : Str → Str → Bool,
      (processAppCmd httpd now ts filename argv cmd).outcome = .done ∧
      (processAppCmd httpd now ts filename argv cmd).response = some (appListing cmd args.jvmRoute
        (args.aliases.map fun a => (a, args.contexts.filter (f a)))) ∧
      registry (processAppCmd httpd now ts filename argv cmd).tables =
        (registry ts).assign args.jvmRoute (args.aliases.map fun a => (a, args.contexts.filter (f a))) cmd := by
  obtain ⟨hid, hknown⟩ := hnode.id h.sound.ids.nodes
  have hnew := h.appCmd httpd now filename argv cmd
  have heq := processAppCmd_eq now cmd (by rw [hfile]; exact hargs) hnode hid
  rw [hfile, if_neg Bool.false_ne_true] at heq
  rw [heq] at hnew ⊢
  have hfit := parseApp_fit hargs
  obtain ⟨hmade, hgiven, hflags⟩ := @appAliases_given now cmd i 0 args.aliases args.contexts (incVersionNode ts)
    hcmd hfit.contexts hfit.aliases h.version.sound.ids hknown h.hosts h.sound.keyed.contexts
  have happs : AppsGiven now cmd i args.aliases args.contexts (incVersionNode ts)
      (appAliases now cmd i args.contexts args.aliases 0 (incVersionNode ts)).1 :=
    ⟨hmade, hgiven, fun j c hc hn hmem hon => hgiven.status hc hn ⟨hmem, hon⟩⟩
  refine ⟨carriedBy (appAliases now cmd i args.contexts args.aliases 0 (incVersionNode ts)).1 i, rfl, ?_, ?_⟩
  · simp only
    rw [hflags, printAppCmdResponse_eq hfit.route _ hfit.aliases]
  · have hdeployed (n : Int) (a p : Str) :
        deployed (appAliases now cmd i args.contexts args.aliases 0 (incVersionNode ts)).1 n a p =
          if n = i then
            if a ∈ args.aliases ∧ p ∈ args.contexts ∧
                carriedBy (appAliases now cmd i args.contexts args.aliases 0 (incVersionNode ts)).1 i a p = true then
              some cmd
            else deployed (incVersionNode ts) n a p
          else deployed (incVersionNode ts) n a p := by
      rw [deployed_given h.version hnew happs]
      by_cases hn : n = i
      · rw [if_pos hn]
        exact if_congr (and_iff_right hn) rfl rfl
      · rw [if_neg hn, if_neg fun h => hn h.1]
    funext r host path
    rw [registry_ext _ (appAliases_rest args.aliases).nodes h.version.sound.ids.nodes ⟨hnode.found, hnode.unmarked⟩
      hdeployed r host path]
    unfold Registry.assign
    simp only [Bool.and_eq_true, beq_iff_eq]
    by_cases hr : r = args.jvmRoute
    · rw [if_pos hr]
      refine if_congr ?_ rfl rfl
      rw [and_iff_right hr, any_listed]
    · rw [if_neg hr, if_neg fun h => hr h.1]
      rfl

theorem registry_removed (h : Told ts) (hargs : parseApp httpd false argv = .ok args)
    (hnode : Addressed ts args.jvmRoute i) (hfile : (filename == NODE_COMMAND) = false) :
    (processAppCmd httpd now ts filename argv .remove).outcome = .done ∧
    registry (processAppCmd httpd now ts filename argv .remove).tables =
      (registry ts).withdraw args.jvmRoute args.aliases args.contexts := by
  obtain ⟨hid, hknown⟩ := hnode.id h.sound.ids.nodes
  have hnew := h.appCmd httpd now filename argv .remove
  have heq := processAppCmd_eq now .remove (by rw [hfile]; exact hargs) hnode hid
  rw [hfile, if_neg Bool.false_ne_true] at heq
  rw [heq] at hnew ⊢
  have hfit := parseApp_fit hargs
  have hremoved := @appAliases_removed now i 0 args.aliases args.contexts (incVersionNode ts) hfit.contexts hfit.aliases
    h.version.sound.ids hknown h.hosts h.sound.keyed.contexts
  refine ⟨rfl, ?_⟩
  have hdeployed (n : Int) (a p : Str) :
      deployed (appAliases now .remove i args.contexts args.aliases 0 (incVersionNode ts)).1 n a p =
        if n = i then if a ∈ args.aliases ∧ p ∈ args.contexts then none else deployed (incVersionNode ts) n a p
        else deployed (incVersionNode ts) n a p := by
    rw [deployed_removed h.version hnew hremoved]
    by_cases hn : n = i
    · rw [if_pos hn]
      exact if_congr (and_iff_right hn) rfl rfl
    · rw [if_neg hn, if_neg fun h => hn h.1]
  funext r host path
  rw [registry_ext _ (appAliases_rest args.aliases).nodes h.version.sound.ids.nodes ⟨hnode.found, hnode.unmarked⟩
    hdeployed r host path]
  unfold Registry.withdraw
  simp only [Bool.and_eq_true, beq_iff_eq, List.contains_iff_mem, and_assoc]
  by_cases hr : r = args.jvmRoute
  · rw [if_pos hr]
    exact if_congr (and_iff_right hr).symm rfl rfl
  · rw [if_neg hr, if_neg fun h => hr h.1]
    rfl

theorem registry_wildcard (h : Told ts) (hargs : parseApp httpd true argv = .ok args)
    (hnode : Addressed ts args.jvmRoute i) (hfile : (filename == NODE_COMMAND) = true) :
    (processAppCmd httpd now ts filename argv cmd).outcome = .done ∧
    registry (processAppCmd httpd now ts filename argv cmd).tables =
      if cmd = .remove then (registry ts).drop args.jvmRoute else (registry ts).setAll args.jvmRoute cmd := by
  obtain ⟨hid, -⟩ := hnode.id h.sound.ids.nodes
  obtain ⟨a, ha, hfirst, -⟩ := hnode.node h.sound.ids.nodes
  have hnew := h.appCmd httpd now filename argv cmd
  have heq := processAppCmd_eq now cmd (by rw [hfile]; exact hargs) hnode hid
  rw [hfile, if_pos rfl] at heq
  rw [heq] at hnew ⊢
  refine ⟨rfl, ?_⟩
  have hid' : ((incVersionNode ts).nodes.peek i).mess.id = i := hid
  simp only [processNodeCmd, hid'] at hnew ⊢
  have hnode' : Addressed (incVersionNode ts) args.jvmRoute i := ⟨hnode.found, hnode.unmarked⟩
  split
  · -- There is no table of hosts, so there is no host.
    rename_i hsize
    have hnone (r host path : Str) : registry (incVersionNode ts) r host path = none := by
      unfold registry
      cases addressee (incVersionNode ts) r with
      | none => rfl
      | some k =>
        rw [Option.bind_some]
        refine Option.eq_none_iff_forall_ne_some.2 fun status hd => ?_
        obtain ⟨x, c, hx, -⟩ := (deployed_iff h.version).1 hd
        obtain ⟨j, hx⟩ := hx.hostUsed
        have hlt := used_lt hx
        omega
    funext r host path
    have hold : registry ts r host path = none := hnone r host path
    rw [hnone]
    unfold Registry.drop Registry.setAll
    split <;> simp only [hold, Option.map_none, ite_self]
  rename_i hsize
  rw [if_neg hsize] at hnew
  by_cases hcmd : cmd = .remove
  · subst hcmd
    simp only [if_true] at hnew ⊢
    have hpeek : (incVersionNode ts).nodes = ts.nodes := rfl
    rw [nodeCmdHosts_nodes, hpeek, removeMark_eq hfirst ha] at hnew ⊢
    obtain ⟨hhosts, hcontexts⟩ := @nodeCmdHosts_removed (incVersionNode ts) now i
      (getIdsUsedHost (incVersionNode ts).hosts) h.version.sound.ids (getIdsUsedHost_used h.version.sound.ids)
    have hnone (j : Nat) : (nodeCmdHosts now .remove i (incVersionNode ts)
        (getIdsUsedHost (incVersionNode ts).hosts)).hosts.used j =
          ((incVersionNode ts).hosts.used j).filter fun x => !(x.node == (i : Int)) := by
      rw [hhosts j]
      cases hj : (incVersionNode ts).hosts.used j with
      | none => rfl
      | some x =>
        have hmem : (j : Int) ∈ getIdsUsedHost (incVersionNode ts).hosts := by
          rw [getIdsUsedHost_eq]
          exact (mem_ids h.version.sound.ids.hosts).2 ⟨j, x, hj, rfl⟩
        simp [hmem]
    have hdeployed (n : Int) (host path : Str) := @deployed_emptied _ _ i n host path h.version hnew hnone hcontexts
    exact registry_marked ha h.sound.ids.nodes hnew.sound.ids.nodes rfl hnode hdeployed
  · simp only [if_neg hcmd] at hnew ⊢
    obtain ⟨hhosts, hcontexts⟩ := @nodeCmdHosts_used (incVersionNode ts) now cmd hcmd i
      (getIdsUsedHost (incVersionNode ts).hosts) h.version.sound.ids h.version.sound.keyed
      (getIdsUsedHost_used h.version.sound.ids)
    funext r host path
    rw [registry_ext _ (nodeCmdHosts_nodes _) h.version.sound.ids.nodes hnode'
      (fun n host path => deployed_commanded h.version hnew hhosts hcontexts) r host path]
    rfl

end Commands

/-! ## What is none of its business -/

section Aside

variable {httpd : Httpd} {ts ts' : Tables} {wait now n : Int} {i : Nat} {a : Nodeinfo} {host path : Str}

theorem deployed_frame (hold : Told ts) (hnew : Told ts')
    (hhosts : ∀ j x, x.node = n → (ts'.hosts.used j = some x ↔ ts.hosts.used j = some x))
    (hcontexts : ∀ j c, c.node = n → (ts'.contexts.used j = some c ↔ ts.contexts.used j = some c)) :
    deployed ts' n host path = deployed ts n host path := by
  refine Option.ext fun status => ?_
  rw [deployed_iff hnew, deployed_iff hold]
  refine exists₂_congr fun x c => and_congr_left fun _ => ?_
  constructor
  · rintro ⟨⟨j, hx⟩, hxn, hxh, ⟨k, hc⟩, hcn, hcv, hcp⟩
    exact ⟨⟨j, (hhosts j x hxn).1 hx⟩, hxn, hxh, ⟨k, (hcontexts k c hcn).1 hc⟩, hcn, hcv, hcp⟩
  · rintro ⟨⟨j, hx⟩, hxn, hxh, ⟨k, hc⟩, hcn, hcv, hcp⟩
    exact ⟨⟨j, (hhosts j x hxn).2 hx⟩, hxn, hxh, ⟨k, (hcontexts k c hcn).2 hc⟩, hcn, hcv, hcp⟩

theorem registry_aside (hold : Told ts) (hnew : Told ts') (hdesc : NodesDescend ts.nodes ts'.nodes)
    (hstay : ∀ i a, ts.nodes.used i = some a → a.mess.remove = false →
      ∃ b, ts'.nodes.used i = some b ∧ b.mess.remove = false)
    (hdeployed : ∀ i a, ts.nodes.used i = some a → a.mess.remove = false →
      ∀ host path, deployed ts' i host path = deployed ts i host path) : registry ts' = registry ts := by
  have haddressed (r : Str) (i : Nat) : Addressed ts' r i ↔ Addressed ts r i := by
    rw [addressed_iff hnew, addressed_iff hold]
    constructor
    · rintro ⟨b, hb, rfl, hremove⟩
      obtain ⟨a, ha, hd⟩ := hdesc i b hb
      have hname := hd.jvmRoute.resolve_right fun h => by simp [h.2] at hremove
      exact ⟨a, ha, hname.symm, by_contra fun hmark => by simp [hd.remove (by simpa using hmark)] at hremove⟩
    · rintro ⟨a, ha, rfl, hremove⟩
      obtain ⟨b, hb, hkept⟩ := hstay i a ha hremove
      obtain ⟨a', ha', hd⟩ := hdesc i b hb
      cases ha.symm.trans ha'
      exact ⟨b, hb, hd.jvmRoute.resolve_right fun h => by simp [h.2] at hkept, hkept⟩
  have haddressee (r : Str) : addressee ts' r = addressee ts r :=
    Option.ext fun i => addressee_iff.trans ((haddressed r i).trans addressee_iff.symm)
  funext r host path
  unfold registry
  rw [haddressee]
  cases hi : addressee ts r with
  | none => rfl
  | some i =>
    obtain ⟨a, ha, -, hremove⟩ := (addressed_iff hold).1 (addressee_iff.1 hi)
    exact hdeployed i a ha hremove host path

theorem locRemoveHostContext_used (hok : IdsOk ts) (id : Int) (hsize : ts.hosts.size ≠ 0) :
    (∀ j, (locRemoveHostContext id ts).hosts.used j = (ts.hosts.used j).filter fun x => !(x.node == id)) ∧
      ∀ j, (locRemoveHostContext id ts).contexts.used j = (ts.contexts.used j).filter fun c => !(c.node == id) := by
  unfold locRemoveHostContext
  rw [if_neg hsize, getIdsUsedHost_eq, getIdsUsedContext_eq]
  exact ⟨fun j => sweep_used _ hok.hosts j, fun j => sweep_used _ hok.contexts j⟩

theorem locRemoveHostContext_apart (hok : IdsOk ts) {id : Int} (hne : n ≠ id) :
    (∀ j x, x.node = n → ((locRemoveHostContext id ts).hosts.used j = some x ↔ ts.hosts.used j = some x)) ∧
      ∀ j c, c.node = n → ((locRemoveHostContext id ts).contexts.used j = some c ↔ ts.contexts.used j = some c) := by
  by_cases hsize : ts.hosts.size = 0
  · unfold locRemoveHostContext
    rw [if_pos hsize]
    exact ⟨fun _ _ _ => Iff.rfl, fun _ _ _ => Iff.rfl⟩
  obtain ⟨hhosts, hcontexts⟩ := locRemoveHostContext_used hok id hsize
  refine ⟨fun j x hx => ?_, fun j c hc => ?_⟩
  · rw [hhosts, Option.filter_eq_some_iff]
    simp [hx, hne]
  · rw [hcontexts, Option.filter_eq_some_iff]
    simp [hc, hne]

theorem locRemoveHostContext_noClash (hok : IdsOk ts) (h : NoClash ts.hosts) (id : Int) :
    NoClash (locRemoveHostContext id ts).hosts := by
  by_cases hsize : ts.hosts.size = 0
  · unfold locRemoveHostContext
    rw [if_pos hsize]
    exact h
  · exact h.filter (locRemoveHostContext_used hok id hsize).1

/-- What a step of a watchdog does to hosts and contexts. -/
inductive SlotCleared (ts : Tables) (gone : Int) (ts' : Tables) : Prop
  | not (hhosts : ts'.hosts = ts.hosts) (hcontexts : ts'.contexts = ts.contexts)
  | cleared (hhosts : ts'.hosts = (locRemoveHostContext gone ts).hosts)
      (hcontexts : ts'.contexts = (locRemoveHostContext gone ts).contexts)

theorem SlotCleared.apart {gone : Int} (h : SlotCleared ts gone ts') (hok : IdsOk ts) (hne : n ≠ gone) :
    (∀ j x, x.node = n → (ts'.hosts.used j = some x ↔ ts.hosts.used j = some x)) ∧
      ∀ j c, c.node = n → (ts'.contexts.used j = some c ↔ ts.contexts.used j = some c) := by
  cases h with
  | not hhosts hcontexts =>
    rw [hhosts, hcontexts]
    exact ⟨fun _ _ _ => Iff.rfl, fun _ _ _ => Iff.rfl⟩
  | cleared hhosts hcontexts =>
    rw [hhosts, hcontexts]
    exact locRemoveHostContext_apart hok hne

theorem SlotCleared.noClash {gone : Int} (h : SlotCleared ts gone ts') (hok : IdsOk ts) (hclash : NoClash ts.hosts) :
    NoClash ts'.hosts := by
  cases h with
  | not hhosts hcontexts =>
    rw [hhosts]
    exact hclash
  | cleared hhosts hcontexts =>
    rw [hhosts]
    exact locRemoveHostContext_noClash hok hclash gone

theorem removeRemovedStep_cleared (hok : IdsOk ts) (ha : ts.nodes.used i = some a) :
    SlotCleared ts i (removeRemovedStep httpd wait now ts i).1 := by
  have hd : getNode ts.nodes (i : Int) = some i := dptr_ofNat (used_lt ha)
  have hid : a.mess.id = i := hok.nodes i a ha
  simp only [removeRemovedStep, hd, peek_of_used ha, hid]
  split
  · split
    · exact .not rfl rfl
    · split <;> exact .not rfl rfl
  split
  · refine .cleared ?_ ?_ <;> unfold locRemoveHostContext <;> split <;> rfl
  · exact .not rfl rfl

theorem removeRemovedStep_registry (h : Told ts) (ha : ts.nodes.used i = some a) :
    Told (removeRemovedStep httpd wait now ts i).1 ∧
      registry (removeRemovedStep httpd wait now ts i).1 = registry ts := by
  have hok := h.sound.ids
  have hedits : Edits False ts (removeRemovedStep httpd wait now ts i).1 := removeRemovedStep_edits hok False.elim ha
  have hdesc := @removeRemovedStep_descend httpd ts wait now i a hok ha
  have hcleared := @removeRemovedStep_cleared httpd ts wait now i a hok ha
  have hnew : Told (removeRemovedStep httpd wait now ts i).1 :=
    ⟨hedits.sound h.sound, h.routes.descend hdesc, hcleared.noClash hok h.hosts⟩
  have hunnamed {k : Nat} {b : Nodeinfo} (hb : ts.nodes.used k = some b) (hremove : b.mess.remove = false) :
      b.mess.jvmRoute ≠ REMOVED := by
    intro hr
    rw [h.routes.removed k b hb hr] at hremove
    cases hremove
  refine ⟨hnew, registry_aside h hnew hdesc (fun k b hb hremove => ?_) fun k b hb hremove host path => ?_⟩
  · refine ⟨b, ?_, hremove⟩
    rw [removeRemovedStep_used hok ha]
    split
    · rename_i hik
      subst hik
      cases ha.symm.trans hb
      unfold afterTick
      rw [if_neg fun hlate => hunnamed ha hremove hlate.1, if_neg fun hlate => by simp [hremove] at hlate]
    · exact hb
  · by_cases hik : k = i
    · subst hik
      cases ha.symm.trans hb
      have hsame : (removeRemovedStep httpd wait now ts k).1 = ts := by
        have hd : getNode ts.nodes (k : Int) = some k := dptr_ofNat (used_lt ha)
        simp only [removeRemovedStep, hd, peek_of_used ha]
        rw [if_neg fun hlate => hunnamed ha hremove hlate.1, if_neg fun hlate => by simp [hremove] at hlate]
      rw [hsame]
    · obtain ⟨hhosts, hcontexts⟩ := hcleared.apart hok (show (k : Int) ≠ i by omega)
      exact deployed_frame h hnew hhosts hcontexts

theorem removeRemovedLoop_registry (ids : List Int) (h : Told ts) (hids : IdsUsed ts.nodes ids) :
    Told (removeRemovedLoop httpd wait now ids ts) ∧
      registry (removeRemovedLoop httpd wait now ids ts) = registry ts := by
  induction ids generalizing ts with
  | nil => exact ⟨h, rfl⟩
  | cons id ids ih =>
    obtain ⟨i, a, ha, rfl⟩ := hids.used id (by simp)
    obtain ⟨htold, hstep⟩ := @removeRemovedStep_registry httpd ts wait now i a h ha
    unfold removeRemovedLoop
    obtain ⟨htold', hrest⟩ := ih htold (removeRemovedStep_idsUsed h.sound.ids ha hids)
    exact ⟨htold', hrest.trans hstep⟩

theorem removeRemovedNode_registry (h : Told ts) :
    Told (removeRemovedNode httpd wait now ts) ∧ registry (removeRemovedNode httpd wait now ts) = registry ts := by
  unfold removeRemovedNode
  rw [getIdsUsedNode_eq]
  exact removeRemovedLoop_registry _ h (idsUsed_records h.sound.ids.nodes)

theorem lbRemoveStep_registry (h : Told ts) (id : Int) :
    Told (lbRemoveStep wait now ts id) ∧ registry (lbRemoveStep wait now ts id) = registry ts := by
  have hok := h.sound.ids
  have hedits : Edits False ts (lbRemoveStep wait now ts id) := lbRemoveStep_edits id hok False.elim
  have hdesc := @lbRemoveStep_descend ts wait now id
  unfold lbRemoveStep at hedits hdesc ⊢
  cases hi : getNode ts.nodes id with
  | none => exact ⟨h, rfl⟩
  | some i =>
    obtain ⟨-, hlt⟩ := dptr_eq_some.mp hi
    simp only [hi] at hedits hdesc ⊢
    by_cases hlate : (ts.nodes.peek i).mess.remove ∧ now - (ts.nodes.peek i).updatetime ≥ wait ∧
        now - (ts.nodes.peek i).mess.lastcleantry ≥ wait
    · have hid := hok.stale i hlt hlate.1
      rw [if_pos hlate, hid, locRemoveHostContext_nodes, removeNode, release_ofNat] at hedits hdesc ⊢
      have hnew : Told { locRemoveHostContext i ts with nodes := ts.nodes.setInuse i false } :=
        ⟨hedits.sound h.sound, h.routes.descend hdesc, locRemoveHostContext_noClash hok h.hosts i⟩
      have hother {k : Nat} {b : Nodeinfo} (hb : ts.nodes.used k = some b) (hremove : b.mess.remove = false) :
          i ≠ k := by
        rintro rfl
        have hmark := hlate.1
        rw [peek_of_used hb, hremove] at hmark
        cases hmark
      refine ⟨hnew, registry_aside h hnew hdesc (fun k b hb hremove => ⟨b, ?_, hremove⟩)
        fun k b hb hremove host path => ?_⟩
      · simp only
        rw [used_setInuse_ne false (hother hb hremove)]
        exact hb
      · have hne := hother hb hremove
        obtain ⟨hhosts, hcontexts⟩ := @locRemoveHostContext_apart ts k hok i (by omega)
        exact deployed_frame h hnew hhosts hcontexts
    · rw [if_neg hlate]
      exact ⟨h, rfl⟩

theorem lbRemoveRemovedNode_registry (nodeTable : List Int) (h : Told ts) :
    Told (lbRemoveRemovedNode wait now nodeTable ts) ∧
      registry (lbRemoveRemovedNode wait now nodeTable ts) = registry ts := by
  induction nodeTable generalizing ts with
  | nil => exact ⟨h, rfl⟩
  | cons id ids ih =>
    obtain ⟨htold, hstep⟩ := @lbRemoveStep_registry ts wait now h id
    obtain ⟨htold', hrest⟩ := ih htold
    exact ⟨htold', hrest.trans hstep⟩

end Aside

end ModCluster
