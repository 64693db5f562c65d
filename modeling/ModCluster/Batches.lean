import ModCluster.Lib.Erasure
import ModCluster.ConfigAtomic
import ModCluster.Removal
import ModCluster.Aliases

/-!
# A batch command and its single commands

An application command names a list of aliases and a list of contexts. `appAliases`
works through them with a running vhost number, makes hosts as it meets new aliases
and drops a host once all contexts are done. The single commands do the same one
alias and one context at a time.
-/

open CString Slotmem Slotmem.Table

namespace ModCluster

variable {now node vid : Int} {cmd : ContextStatus} {ts : Tables}

/-! ## Times aside

Where the tables are compared with their times at 0, a command may as well run at
time 0: what it stores is then erased as it is. -/

def Tables.untimed (ts : Tables) : Tables :=
  { ts with
    hosts := ts.hosts.mapData Hostinfo.untimed
    contexts := ts.contexts.mapData Contextinfo.untimed
    version := 0 }

theorem insertUpdateHost_untimed (m : Table Hostinfo) (host : Hostinfo) :
    insertUpdateHost 0 (m.mapData Hostinfo.untimed) host =
      (insertUpdateHost now m host).map fun r => (r.1.mapData Hostinfo.untimed, r.2) := by
  have hupdate : ∀ ou inn : Hostinfo, Host.update 0 ou.untimed inn =
      ((Host.update now ou inn).1, (Host.update now ou inn).2.1.untimed, (Host.update now ou inn).2.2) := by
    intro ou inn
    unfold Host.update Hostinfo.untimed
    simp only
    split <;> rfl
  have hfresh : ∀ i : Nat, { host with id := (i : Int), updatetime := aprTimeSec 0 } =
      Hostinfo.untimed { host with id := (i : Int), updatetime := aprTimeSec now } := fun i => rfl
  exact insertUpdate_mapData hupdate hfresh m host

theorem readHost_untimed (m : Table Hostinfo) (host : Hostinfo) :
    readHost (m.mapData Hostinfo.untimed) host = readHost m host := by
  unfold readHost
  rw [dptr_mapData, readBy_mapData]
  intro ou inn
  unfold Host.locReadHost Hostinfo.untimed
  simp only
  split <;> rfl

theorem getIdsUsedHost_untimed (m : Table Hostinfo) :
    getIdsUsedHost (m.mapData Hostinfo.untimed) = getIdsUsedHost m := by
  rw [getIdsUsedHost_eq, getIdsUsedHost_eq, records_mapData, List.map_map]
  rfl

theorem peekHost_untimed (m : Table Hostinfo) (i : Nat) :
    (m.mapData Hostinfo.untimed).peek i = (m.peek i).untimed :=
  peek_mapData rfl m i

theorem maxVhost_untimed (m : Table Hostinfo) (ids : List Int) :
    maxVhost (m.mapData Hostinfo.untimed) node vid ids = maxVhost m node vid ids := by
  induction ids generalizing vid with
  | nil => rfl
  | cons id ids ih =>
    simp only [maxVhost, getHost, dptr_mapData]
    cases m.dptr id with
    | none => exact ih
    | some i =>
      simp only [peekHost_untimed]
      exact ih

theorem appHost_untimed (m : Table Hostinfo) (host : Str) :
    appHost 0 cmd (m.mapData Hostinfo.untimed) node vid host =
      ((appHost now cmd m node vid host).1, (appHost now cmd m node vid host).2.1.mapData Hostinfo.untimed,
        (appHost now cmd m node vid host).2.2) := by
  unfold appHost
  rw [readHost_untimed, getIdsUsedHost_untimed, maxVhost_untimed]
  cases (readHost m (hostRecord node vid (truncate HOSTALIASZ host))).1 with
  | some i => rfl
  | none =>
    simp only
    split
    · rfl
    · simp only [@insertUpdateHost_untimed now]
      generalize hostRecord node _ (truncate HOSTALIASZ host) = record
      cases insertUpdateHost now m record with
      | none => rfl
      | some r => simp only [Option.map_some, readHost_untimed]

theorem insertUpdateContext_untimed (m : Table Contextinfo) (context : Contextinfo) :
    insertUpdateContext 0 (m.mapData Contextinfo.untimed) context =
      (insertUpdateContext now m context).map (·.mapData Contextinfo.untimed) := by
  have hupdate : ∀ ou inn : Contextinfo, Context.update 0 ou.untimed inn =
      ((Context.update now ou inn).1, (Context.update now ou inn).2.1.untimed, (Context.update now ou inn).2.2) := by
    intro ou inn
    unfold Context.update Contextinfo.untimed
    simp only
    split <;> rfl
  have hfresh : ∀ i : Nat, { context with id := (i : Int), nbrequests := 0, updatetime := aprTimeSec 0 } =
      Contextinfo.untimed { context with id := (i : Int), nbrequests := 0, updatetime := aprTimeSec now } :=
    fun i => rfl
  unfold insertUpdateContext
  rw [insertUpdate_mapData hupdate hfresh m context, Option.map_map, Option.map_map]
  rfl

theorem readContext_untimed (m : Table Contextinfo) (context : Contextinfo) :
    readContext (m.mapData Contextinfo.untimed) context = readContext m context := by
  unfold readContext
  rw [dptr_mapData, readBy_mapData]
  intro ou inn
  unfold Context.locReadContext Contextinfo.untimed
  simp only
  split <;> rfl

theorem peekContext_untimed (m : Table Contextinfo) (i : Nat) :
    (m.mapData Contextinfo.untimed).peek i = (m.peek i).untimed :=
  peek_mapData rfl m i

theorem readRemoveContext_untimed (m : Table Contextinfo) (context : Contextinfo) :
    readRemoveContext (m.mapData Contextinfo.untimed) context =
      (readRemoveContext m context).mapData Contextinfo.untimed := by
  unfold readRemoveContext
  rw [readContext_untimed]
  cases readContext m context with
  | none => rfl
  | some i =>
    simp only [peekContext_untimed]
    exact release_mapData m _

theorem insertUpdateContextHelper_untimed (m : Table Contextinfo) (info : Contextinfo) (context : Str) :
    insertUpdateContextHelper 0 (m.mapData Contextinfo.untimed) info context cmd =
      (insertUpdateContextHelper now m info context cmd).map (·.mapData Contextinfo.untimed) := by
  unfold insertUpdateContextHelper
  simp only
  split
  · rw [readRemoveContext_untimed]
    rfl
  · exact insertUpdateContext_untimed m _

theorem appContexts_untimed {vhost : Int} (contexts : List Str) (m : Table Contextinfo) :
    appContexts 0 cmd node vhost contexts (m.mapData Contextinfo.untimed) =
      ((appContexts now cmd node vhost contexts m).1.mapData Contextinfo.untimed,
        (appContexts now cmd node vhost contexts m).2) := by
  induction contexts generalizing m with
  | nil => rfl
  | cons context rest ih =>
    simp only [appContexts, @insertUpdateContextHelper_untimed now]
    cases insertUpdateContextHelper now m (contextRecord node vhost cmd) context cmd with
    | none => simp only [Option.map_none, ih]
    | some m' => simp only [Option.map_some, ih]

theorem hasContext_untimed {vhost : Int} (m : Table Contextinfo) :
    hasContext (m.mapData Contextinfo.untimed) node vhost = hasContext m node vhost := by
  unfold hasContext
  rw [getIdsUsedContext_eq, getIdsUsedContext_eq, records_mapData, List.map_map]
  simp only [getContext, dptr_mapData, peekContext_untimed]
  rfl

theorem dropHosts_untimed {vhost : Int} (ts : Tables) :
    dropHosts ts.untimed node vhost = (dropHosts ts node vhost).untimed := by
  unfold dropHosts
  have hhas : hasContext ts.untimed.contexts node vhost = hasContext ts.contexts node vhost :=
    hasContext_untimed ts.contexts
  have hids : getIdsUsedHost ts.untimed.hosts = getIdsUsedHost ts.hosts := getIdsUsedHost_untimed ts.hosts
  rw [hhas, hids]
  split
  · rfl
  · have hsweep := @sweep_mapData _ Hostinfo.untimed _ (·.id) (fun ou => ou.vhost == vhost && ou.node == node)
      rfl (fun _ => rfl) (fun _ => rfl) ts.hosts (getIdsUsedHost ts.hosts)
    simp only [Tables.untimed, hsweep]

theorem appAliases_untimed {contexts : List Str} (aliases : List Str) (ts : Tables) :
    (appAliases 0 cmd node contexts aliases vid ts.untimed).1 =
      (appAliases now cmd node contexts aliases vid ts).1.untimed := by
  induction aliases generalizing vid ts with
  | nil => rfl
  | cons host rest ih =>
    have hh : appHost 0 cmd ts.untimed.hosts node vid host = _ := @appHost_untimed now _ _ _ ts.hosts host
    simp only [appAliases, hh]
    obtain ⟨r, hosts, vid', heq⟩ : ∃ r hosts vid', appHost now cmd ts.hosts node vid host = (r, hosts, vid') :=
      ⟨_, _, _, rfl⟩
    rw [heq]
    cases r with
    | none => exact ih { ts with hosts := hosts }
    | some i =>
      have hv : ((hosts.mapData Hostinfo.untimed).peek i).vhost = (hosts.peek i).vhost := by
        rw [peekHost_untimed]
        rfl
      have hc := @appContexts_untimed now node cmd (hosts.peek i).vhost contexts ts.contexts
      have hc' : ts.untimed.contexts = ts.contexts.mapData Contextinfo.untimed := rfl
      simp only [hv, hc', hc]
      split
      · rw [← ih]
        exact congrArg (fun t => (appAliases 0 cmd node contexts rest vid' t).1)
          (dropHosts_untimed { ts with hosts := hosts, contexts := _ })
      · exact ih { ts with hosts := hosts, contexts := _ }

/-! ## The host of an alias -/

variable {m : Table Hostinfo} {host : Str}

theorem appHost_found {i : Nat} (hids : m.IdsMatch (·.id))
    (hf : m.first (hasAlias (truncate HOSTALIASZ host) node) = some i) :
    appHost now cmd m node vid host = (some i, m, vid) := by
  unfold appHost
  rw [readHost_some hids rfl hf]

theorem appHost_unknown (hf : m.first (hasAlias (truncate HOSTALIASZ host) node) = none) :
    appHost now .remove m node vid host = (none, m, vid) := by
  unfold appHost
  rw [readHost_none rfl hf]
  rfl

/-- The host a command makes for a new alias. -/
def newHost (now : Int) (m : Table Hostinfo) (node vid : Int) (host : Str) (i : Nat) : Hostinfo :=
  { hostRecord node (maxVhost m node vid (getIdsUsedHost m) + 1) (truncate HOSTALIASZ host) with
    id := i, updatetime := aprTimeSec now }

theorem first_newHost {i : Nat} (hf : m.first (hasAlias (truncate HOSTALIASZ host) node) = none)
    (hlt : i < m.size) :
    (m.store i (newHost now m node vid host i)).first (hasAlias (truncate HOSTALIASZ host) node) = some i := by
  refine first_eq_some_of (used_store_self _ hlt) (hasAlias_iff.mpr ⟨rfl, rfl⟩) fun j b hj hb => ?_
  rcases used_of_store hb with ⟨rfl, -⟩ | ⟨-, hb⟩
  · omega
  · exact first_eq_none.mp hf j b hb

theorem idsMatch_newHost {i : Nat} (hids : m.IdsMatch (·.id)) :
    (m.store i (newHost now m node vid host i)).IdsMatch (·.id) :=
  hids.store rfl

theorem appHost_new (hids : m.IdsMatch (·.id)) (hcmd : cmd ≠ .remove)
    (hf : m.first (hasAlias (truncate HOSTALIASZ host) node) = none) :
    appHost now cmd m node vid host =
      match m.grab with
      | some r => (some r.1, m.store r.1 (newHost now m node vid host r.1),
          maxVhost m node vid (getIdsUsedHost m) + 1)
      | none => (none, m, maxVhost m node vid (getIdsUsedHost m) + 1) := by
  have hnew : m.first (sameHost (hostRecord node (maxVhost m node vid (getIdsUsedHost m) + 1)
      (truncate HOSTALIASZ host))) = none := by
    rw [first_eq_none]
    intro j x hx
    rw [Bool.eq_false_iff]
    intro hsame
    obtain ⟨hh, -, hn⟩ := sameHost_iff.mp hsame
    have hal : hasAlias (truncate HOSTALIASZ host) node x = true := hasAlias_iff.mpr ⟨hh.symm, hn.symm⟩
    rw [first_eq_none.mp hf j x hx] at hal
    cases hal
  unfold appHost
  rw [readHost_none rfl hf]
  simp only [if_neg hcmd]
  cases hg : m.grab with
  | none => rw [insertUpdateHost_eq_none.mpr ⟨hnew, hg⟩]
  | some r =>
    obtain ⟨i, m₁⟩ := r
    obtain ⟨hlt, -, rfl⟩ := grab_eq_some hg
    have hins : insertUpdateHost now m (hostRecord node (maxVhost m node vid (getIdsUsedHost m) + 1)
        (truncate HOSTALIASZ host)) =
          some (m.store i (newHost now m node vid host i),
            hostRecord node (maxVhost m node vid (getIdsUsedHost m) + 1) (truncate HOSTALIASZ host)) := by
      unfold insertUpdateHost insertUpdate
      rw [doall_none (Host.update_eq now _) hnew]
      simp only [hg, Option.map_some]
      rfl
    simp only [hins]
    have hread := @readHost_some (m.store i (newHost now m node vid host i))
      (hostRecord node (maxVhost m node vid (getIdsUsedHost m) + 1) (truncate HOSTALIASZ host)) i
      (idsMatch_newHost hids) rfl (first_newHost hf hlt)
    rw [hread]

/-! ## The running vhost number

The batch counts on from its last number, a single command starts from 0. Both pick
the same number as long as the count is one that the hosts of the node reach, and
when they do not, no host can be stored any more. -/

structure VidOk (m : Table Hostinfo) (node vid : Int) : Prop where
  nonneg : 0 ≤ vid
  reached : vid ≤ maxVhost m node 0 (getIdsUsedHost m) ∨ m.grab = none

theorem maxVhost_max (m : Table Hostinfo) (node vid w : Int) (ids : List Int) :
    maxVhost m node (max vid w) ids = max vid (maxVhost m node w ids) := by
  induction ids generalizing w with
  | nil => rfl
  | cons id ids ih =>
    simp only [maxVhost]
    split
    · rename_i i hi
      rw [← ih]
      congr 1
      split <;> split <;> omega
    · exact ih w

theorem VidOk.maxVhost_eq (h : VidOk m node vid) (hfree : m.grab ≠ none) :
    maxVhost m node vid (getIdsUsedHost m) = maxVhost m node 0 (getIdsUsedHost m) := by
  have hle := h.reached.resolve_right hfree
  have hmax := maxVhost_max m node vid 0 (getIdsUsedHost m)
  rw [max_eq_left h.nonneg, max_eq_right hle] at hmax
  exact hmax

theorem vidOk_zero (m : Table Hostinfo) (node : Int) : VidOk m node 0 :=
  ⟨Int.le_refl 0, Or.inl (le_maxVhost m node 0 _)⟩

theorem appHost_vid (hids : m.IdsMatch (·.id)) (hcmd : cmd ≠ .remove) (hvid : VidOk m node vid) :
    (appHost now cmd m node vid host).1 = (appHost now cmd m node 0 host).1 ∧
      (appHost now cmd m node vid host).2.1 = (appHost now cmd m node 0 host).2.1 := by
  cases hf : m.first (hasAlias (truncate HOSTALIASZ host) node) with
  | some i =>
    rw [appHost_found hids hf, appHost_found hids hf]
    exact ⟨rfl, rfl⟩
  | none =>
    rw [appHost_new hids hcmd hf, appHost_new hids hcmd hf]
    cases hg : m.grab with
    | none => exact ⟨rfl, rfl⟩
    | some r =>
      have hmax := hvid.maxVhost_eq (by rw [hg]; simp)
      simp only [newHost, hmax, and_self]

theorem appHost_vidOk (hids : m.IdsMatch (·.id)) (hcmd : cmd ≠ .remove) (hvid : VidOk m node vid) :
    VidOk (appHost now cmd m node vid host).2.1 node (appHost now cmd m node vid host).2.2 := by
  cases hf : m.first (hasAlias (truncate HOSTALIASZ host) node) with
  | some i =>
    rw [appHost_found hids hf]
    exact hvid
  | none =>
    rw [appHost_new hids hcmd hf]
    have hpos : 0 ≤ maxVhost m node vid (getIdsUsedHost m) + 1 := by
      have := le_maxVhost m node vid (getIdsUsedHost m)
      have := hvid.nonneg
      omega
    cases hg : m.grab with
    | none => exact ⟨hpos, Or.inr hg⟩
    | some r =>
      obtain ⟨i, m₁⟩ := r
      obtain ⟨hlt, -, rfl⟩ := grab_eq_some hg
      refine ⟨hpos, Or.inl ?_⟩
      -- The new host itself has the number.
      have hused := used_store_self (newHost now m node vid host i) hlt
      have hmem : (i : Int) ∈ getIdsUsedHost (m.store i (newHost now m node vid host i)) := by
        rw [getIdsUsedHost_eq]
        exact (mem_ids (idsMatch_newHost hids)).mpr ⟨i, _, hused, rfl⟩
      exact vhost_le_maxVhost hused rfl _ hmem

/-! ## One alias -/

/-- What the loop does with the host of an alias. -/
def atHost (now : Int) (cmd : ContextStatus) (node : Int) (contexts : List Str) (r : Option Nat)
    (hosts : Table Hostinfo) (ts : Tables) : Tables :=
  match r with
  | none => { ts with hosts := hosts }
  | some i =>
    if cmd = .remove then
      dropHosts
        { ts with
          hosts := hosts
          contexts := (appContexts now cmd node (hosts.peek i).vhost contexts ts.contexts).1 }
        node (hosts.peek i).vhost
    else
      { ts with
        hosts := hosts
        contexts := (appContexts now cmd node (hosts.peek i).vhost contexts ts.contexts).1 }

theorem appAliases_cons (contexts : List Str) (rest : List Str) :
    (appAliases now cmd node contexts (host :: rest) vid ts).1 =
      (appAliases now cmd node contexts rest (appHost now cmd ts.hosts node vid host).2.2
        (atHost now cmd node contexts (appHost now cmd ts.hosts node vid host).1
          (appHost now cmd ts.hosts node vid host).2.1 ts)).1 := by
  obtain ⟨r, hosts, vid', heq⟩ : ∃ r hosts vid', appHost now cmd ts.hosts node vid host = (r, hosts, vid') :=
    ⟨_, _, _, rfl⟩
  simp only [appAliases, heq]
  cases r with
  | none => rfl
  | some i => rfl

theorem appAliases_one (contexts : List Str) :
    (appAliases now cmd node contexts [host] vid ts).1 =
      atHost now cmd node contexts (appHost now cmd ts.hosts node vid host).1
        (appHost now cmd ts.hosts node vid host).2.1 ts :=
  appAliases_cons contexts []

theorem appContexts_cons {vhost : Int} (context : Str) (rest : List Str) (m : Table Contextinfo) :
    (appContexts now cmd node vhost (context :: rest) m).1 =
      (appContexts now cmd node vhost rest (appContexts now cmd node vhost [context] m).1).1 := by
  simp only [appContexts]
  cases insertUpdateContextHelper now m (contextRecord node vhost cmd) context cmd with
  | none => rfl
  | some m' => rfl

theorem appAliases_split (hids : ts.hosts.IdsMatch (·.id)) (hcmd : cmd ≠ .remove) (context : Str)
    (rest : List Str) :
    (appAliases now cmd node (context :: rest) [host] 0 ts).1 =
      (appAliases now cmd node rest [host] 0 (appAliases now cmd node [context] [host] 0 ts).1).1 := by
  have hhit : ∀ {m : Table Hostinfo} {i : Nat}, m.IdsMatch (·.id) →
      m.first (hasAlias (truncate HOSTALIASZ host) node) = some i →
        atHost now cmd node (context :: rest) (some i) m ts =
          (appAliases now cmd node rest [host] 0 (atHost now cmd node [context] (some i) m ts)).1 := by
    intro m i hidsm hfm
    rw [appAliases_one]
    have hhosts : (atHost now cmd node [context] (some i) m ts).hosts = m := by
      simp only [atHost, if_neg hcmd]
    rw [hhosts, appHost_found hidsm hfm]
    simp only [atHost, if_neg hcmd]
    rw [appContexts_cons]
  rw [appAliases_one (context :: rest), appAliases_one [context]]
  cases hf : ts.hosts.first (hasAlias (truncate HOSTALIASZ host) node) with
  | some i =>
    rw [appHost_found hids hf]
    exact hhit hids hf
  | none =>
    cases hg : ts.hosts.grab with
    | none =>
      -- No host can be made: neither now nor with the next context.
      have hmiss : (appHost now cmd ts.hosts node 0 host).1 = none ∧
          (appHost now cmd ts.hosts node 0 host).2.1 = ts.hosts := by
        rw [appHost_new hids hcmd hf, hg]
        exact ⟨rfl, rfl⟩
      rw [hmiss.1, hmiss.2]
      change ts = (appAliases now cmd node rest [host] 0 ts).1
      rw [appAliases_one, hmiss.1, hmiss.2]
      rfl
    | some r =>
      obtain ⟨i, m₁⟩ := r
      obtain ⟨hlt, -, rfl⟩ := grab_eq_some hg
      rw [appHost_new hids hcmd hf, hg]
      exact hhit (idsMatch_newHost hids) (first_newHost hf hlt)

/-! ## Removal -/

theorem readRemoveContext_none {contexts : Table Contextinfo} {c : Contextinfo} (hid : c.id = 0)
    (h : ∀ k x, contexts.used k = some x → ¬ (x.node = c.node ∧ x.vhost = c.vhost)) :
    readRemoveContext contexts c = contexts := by
  have hf : contexts.first (sameContext c) = none := by
    rw [first_eq_none]
    intro k x hx
    rw [Bool.eq_false_iff]
    intro hsame
    obtain ⟨-, hv, hn⟩ := sameContext_iff.mp hsame
    exact h k x hx ⟨hn.symm, hv.symm⟩
  have hr : readContext contexts c = none := by
    unfold readContext
    rw [if_pos hid, readBy_none (Context.locReadContext_eq c) hf]
  simp only [readRemoveContext, hr]

theorem appContexts_gone {vhost : Int} {contexts : Table Contextinfo} (hids : contexts.IdsMatch (·.id))
    (hgone : hasContext contexts node vhost = false) (names : List Str) :
    (appContexts now .remove node vhost names contexts).1 = contexts := by
  induction names with
  | nil => rfl
  | cons name rest ih =>
    have hone : insertUpdateContextHelper now contexts (contextRecord node vhost .remove) name .remove =
        some contexts :=
      congrArg some (readRemoveContext_none rfl (hasContext_eq_false hids hgone))
    simp only [appContexts, hone]
    exact ih

/-- A node has one host for an alias. -/
def AliasesDistinct (m : Table Hostinfo) : Prop := m.Distinct fun h => (h.node, h.host)

theorem dropHosts_hosts {vhost : Int} (hids : ts.hosts.IdsMatch (·.id)) (j : Nat)
    (hgone : hasContext ts.contexts node vhost = false) :
    (dropHosts ts node vhost).hosts.used j =
      (ts.hosts.used j).filter fun ou => !(ou.vhost == vhost && ou.node == node) := by
  unfold dropHosts
  rw [if_neg (by rw [hgone]; simp)]
  rw [getIdsUsedHost_eq]
  exact sweep_used _ hids j

theorem AliasesDistinct.dropHosts {vhost : Int} (h : AliasesDistinct ts.hosts)
    (hids : ts.hosts.IdsMatch (·.id)) : AliasesDistinct (ModCluster.dropHosts ts node vhost).hosts := by
  cases hgone : hasContext ts.contexts node vhost with
  | true =>
    unfold ModCluster.dropHosts
    rw [if_pos hgone]
    exact h
  | false => exact Distinct.filter h fun j => dropHosts_hosts hids j hgone

theorem first_dropHosts {vhost : Int} {i : Nat} {x : Hostinfo} (hids : ts.hosts.IdsMatch (·.id))
    (hdist : AliasesDistinct ts.hosts) (hgone : hasContext ts.contexts node vhost = false)
    (hx : ts.hosts.used i = some x) (hv : x.vhost = vhost) (hn : x.node = node) :
    (dropHosts ts node vhost).hosts.first (hasAlias x.host node) = none := by
  rw [first_eq_none]
  intro j y hy
  rw [dropHosts_hosts hids j hgone, Option.filter_eq_some_iff] at hy
  obtain ⟨hy, hkept⟩ := hy
  rw [Bool.eq_false_iff]
  intro hal
  obtain ⟨hh, hyn⟩ := hasAlias_iff.mp hal
  have hkey : (y.node, y.host) = (x.node, x.host) := by rw [hh, hyn, hn]
  have hij : j = i := hdist j i y x hy hx hkey
  subst hij
  rw [hx, Option.some.injEq] at hy
  subst hy
  simp [hv, hn] at hkept

/-- With removal, the host goes with its last context. The contexts that are left to
name have no host then, and the batch finds no context for them. -/
theorem appAliases_split_remove (hok : IdsOk ts) (hdist : AliasesDistinct ts.hosts) (context : Str)
    (rest : List Str) :
    (appAliases now .remove node (context :: rest) [host] 0 ts).1 =
      (appAliases now .remove node rest [host] 0 (appAliases now .remove node [context] [host] 0 ts).1).1 := by
  rw [appAliases_one (context :: rest), appAliases_one [context]]
  cases hf : ts.hosts.first (hasAlias (truncate HOSTALIASZ host) node) with
  | none =>
    rw [appHost_unknown hf]
    change ts = (appAliases now .remove node rest [host] 0 ts).1
    rw [appAliases_one, appHost_unknown hf]
    rfl
  | some i =>
    obtain ⟨x, hx, hal, -⟩ := first_eq_some hf
    obtain ⟨hxh, hxn⟩ := hasAlias_iff.mp hal
    rw [appHost_found hok.hosts hf]
    simp only [atHost, if_true, peek_of_used hx]
    rw [appContexts_cons]
    have hids := ((@appContexts_edits False ts now .remove node x.vhost [context] hok
      ⟨i, x, hx, hxn, rfl⟩).idsOk hok).contexts
    generalize (appContexts now .remove node x.vhost [context] ts.contexts).1 = contexts at hids
    cases hgone : hasContext contexts node x.vhost with
    | true =>
      have hkeep : dropHosts { ts with hosts := ts.hosts, contexts := contexts } node x.vhost =
          { ts with hosts := ts.hosts, contexts := contexts } := by
        unfold dropHosts
        rw [if_pos hgone]
      rw [hkeep, appAliases_one, appHost_found hok.hosts hf]
      simp only [atHost, if_true, peek_of_used hx]
    | false =>
      have hnone := @first_dropHosts node { ts with hosts := ts.hosts, contexts := contexts } x.vhost i x
        hok.hosts hdist hgone hx rfl hxn
      rw [hxh] at hnone
      rw [appContexts_gone hids hgone, appAliases_one, appHost_unknown hnone]
      rfl

theorem AliasesDistinct.alias {contexts : List Str} (h : AliasesDistinct ts.hosts)
    (hids : ts.hosts.IdsMatch (·.id)) :
    AliasesDistinct (appAliases now .remove node contexts [host] vid ts).1.hosts := by
  rw [appAliases_one]
  cases hf : ts.hosts.first (hasAlias (truncate HOSTALIASZ host) node) with
  | none =>
    rw [appHost_unknown hf]
    exact h
  | some i =>
    rw [appHost_found hids hf]
    simp only [atHost, if_true]
    exact @AliasesDistinct.dropHosts node { ts with hosts := ts.hosts, contexts := _ } _ h hids

/-! ## All aliases -/

/-- One alias and one context. -/
def appSingle (now : Int) (cmd : ContextStatus) (node : Int) (ts : Tables) (p : Str × Str) : Tables :=
  (appAliases now cmd node [p.2] [p.1] 0 ts).1

/-- The aliases and contexts of a command, alias by alias. -/
def singles (aliases contexts : List Str) : List (Str × Str) :=
  aliases.flatMap fun host => contexts.map fun context => (host, context)

def NodeKnown (ts : Tables) (node : Int) : Prop := ∃ k n, ts.nodes.used k = some n ∧ node = k

theorem appAliases_idsOk (hok : IdsOk ts) (hnode : NodeKnown ts node) (contexts aliases : List Str) :
    IdsOk (appAliases now cmd node contexts aliases vid ts).1 := by
  obtain ⟨k, n, hn, hk⟩ := hnode
  exact (@appAliases_edits False ts now cmd node contexts aliases vid hok
    ⟨k, n, hn, hk, False.elim⟩).idsOk hok

theorem NodeKnown.appAliases (h : NodeKnown ts node) (contexts aliases : List Str) :
    NodeKnown (ModCluster.appAliases now cmd node contexts aliases vid ts).1 node := by
  unfold NodeKnown
  rw [appAliases_nodes]
  exact h

/-- What the loop relies on when it meets an alias. -/
structure BatchOk (cmd : ContextStatus) (node vid : Int) (ts : Tables) : Prop where
  ids : IdsOk ts
  known : NodeKnown ts node
  vids : cmd ≠ .remove → VidOk ts.hosts node vid
  distinct : cmd = .remove → AliasesDistinct ts.hosts

theorem BatchOk.restart (h : BatchOk cmd node vid ts) : BatchOk cmd node 0 ts :=
  ⟨h.ids, h.known, fun _ => vidOk_zero ts.hosts node, h.distinct⟩

theorem BatchOk.alias (h : BatchOk cmd node vid ts) (contexts : List Str) :
    BatchOk cmd node (appHost now cmd ts.hosts node vid host).2.2
      (appAliases now cmd node contexts [host] vid ts).1 := by
  refine ⟨appAliases_idsOk h.ids h.known _ _, h.known.appAliases _ _, fun hcmd => ?_, fun hcmd => ?_⟩
  · have hhosts : (appAliases now cmd node contexts [host] vid ts).1.hosts =
        (appHost now cmd ts.hosts node vid host).2.1 := by
      rw [appAliases_one]
      unfold atHost
      split
      · rfl
      · rw [if_neg hcmd]
    rw [hhosts]
    exact appHost_vidOk h.ids.hosts hcmd (h.vids hcmd)
  · subst hcmd
    exact (h.distinct rfl).alias h.ids.hosts

theorem appAliases_restart (h : BatchOk cmd node vid ts) (contexts : List Str) :
    (appAliases now cmd node contexts [host] vid ts).1 = (appAliases now cmd node contexts [host] 0 ts).1 := by
  rw [appAliases_one, appAliases_one]
  by_cases hcmd : cmd = .remove
  · subst hcmd
    cases hf : ts.hosts.first (hasAlias (truncate HOSTALIASZ host) node) with
    | none => rw [appHost_unknown hf, appHost_unknown hf]
    | some i => rw [appHost_found h.ids.hosts hf, appHost_found h.ids.hosts hf]
  · obtain ⟨hr, hhosts⟩ := appHost_vid h.ids.hosts hcmd (h.vids hcmd)
    rw [hr, hhosts]

theorem appAliases_contexts (h : BatchOk cmd node 0 ts) (contexts : List Str) (hne : contexts ≠ []) :
    (appAliases now cmd node contexts [host] 0 ts).1 =
      (contexts.map fun context => (host, context)).foldl (appSingle now cmd node) ts := by
  induction contexts generalizing ts with
  | nil => exact absurd rfl hne
  | cons context rest ih =>
    have hsplit : (appAliases now cmd node (context :: rest) [host] 0 ts).1 =
        (appAliases now cmd node rest [host] 0 (appAliases now cmd node [context] [host] 0 ts).1).1 := by
      by_cases hcmd : cmd = .remove
      · subst hcmd
        exact appAliases_split_remove h.ids (h.distinct rfl) context rest
      · exact appAliases_split h.ids.hosts hcmd context rest
    cases rest with
    | nil => rfl
    | cons next rest =>
      rw [hsplit, ih (h.alias [context]).restart (List.cons_ne_nil _ _)]
      rfl

theorem appAliases_singles {contexts : List Str} (hne : contexts ≠ []) (aliases : List Str)
    (h : BatchOk cmd node vid ts) :
    (appAliases now cmd node contexts aliases vid ts).1 =
      (singles aliases contexts).foldl (appSingle now cmd node) ts := by
  induction aliases generalizing vid ts with
  | nil => rfl
  | cons host rest ih =>
    have hone : (appAliases now cmd node contexts (host :: rest) vid ts).1 =
        (appAliases now cmd node contexts rest (appHost now cmd ts.hosts node vid host).2.2
          (appAliases now cmd node contexts [host] vid ts).1).1 := by
      rw [appAliases_cons, appAliases_one]
    rw [hone, ih (h.alias contexts), appAliases_restart h, appAliases_contexts h.restart contexts hne]
    simp only [singles, List.flatMap_cons, List.foldl_append]

/-! ## Commands -/

/-- An ENABLE-, DISABLE-, STOP- or REMOVE-APP request, with the time it is served at. -/
structure AppRequest where
  now : Int
  filename : Str
  argv : Argv

def AppRequest.run (httpd : Httpd) (cmd : ContextStatus) (ts : Tables) (q : AppRequest) : Tables :=
  (processAppCmd httpd q.now ts q.filename q.argv cmd).tables

/-- A command that is not wildcard and names these aliases and contexts of the node. -/
structure AppRequest.Names (httpd : Httpd) (route : Str) (aliases contexts : List Str) (q : AppRequest) : Prop where
  filename : q.filename ≠ NODE_COMMAND
  args : parseApp httpd false q.argv = .ok ⟨route, aliases, contexts⟩

instance (httpd : Httpd) (route : Str) (aliases contexts : List Str) (q : AppRequest) :
    Decidable (q.Names httpd route aliases contexts) :=
  decidable_of_iff (q.filename ≠ NODE_COMMAND ∧ parseApp httpd false q.argv = .ok ⟨route, aliases, contexts⟩)
    ⟨fun h => ⟨h.1, h.2⟩, fun h => ⟨h.1, h.2⟩⟩

/-- The node a command is for, as long as it is there and not marked. -/
structure Addressed (ts : Tables) (route : Str) (i : Nat) : Prop where
  found : (readNode ts.nodes (routeNode route (-1))).1 = some i
  unmarked : (ts.nodes.peek i).mess.remove = false

variable {httpd : Httpd} {route : Str} {i : Nat}

theorem Addressed.known (h : Addressed ts route i) (hids : ts.nodes.IdsMatch (·.mess.id)) :
    NodeKnown ts (ts.nodes.peek i).mess.id := by
  have hfound := h.found
  cases hf : ts.nodes.first (hasRoute route) with
  | none =>
    rw [readNode_none rfl hf] at hfound
    cases hfound
  | some j =>
    rw [readNode_some hids rfl hf] at hfound
    cases hfound
    obtain ⟨n, hn, -, -⟩ := first_eq_some hf
    refine ⟨i, n, hn, ?_⟩
    rw [peek_of_used hn]
    exact hids i n hn

theorem AppRequest.run_eq {aliases contexts : List Str} {q : AppRequest}
    (hq : q.Names httpd route aliases contexts) (h : Addressed ts route i) :
    q.run httpd cmd ts =
      (appAliases q.now cmd (ts.nodes.peek i).mess.id contexts aliases 0 (incVersionNode ts)).1 := by
  have hglob : (q.filename == NODE_COMMAND) = false := by simpa using hq.filename
  unfold AppRequest.run processAppCmd
  simp only [hglob, hq.args, h.found, h.unmarked, Bool.false_eq_true, if_false]

theorem AppRequest.run_untimed {aliases contexts : List Str} {q : AppRequest}
    (hq : q.Names httpd route aliases contexts) (h : Addressed ts route i) :
    (q.run httpd cmd ts).untimed =
      (appAliases 0 cmd (ts.nodes.peek i).mess.id contexts aliases 0 ts.untimed).1 := by
  rw [AppRequest.run_eq hq h, ← appAliases_untimed]
  rfl

theorem Addressed.run {aliases contexts : List Str} {q : AppRequest}
    (hq : q.Names httpd route aliases contexts) (h : Addressed ts route i) :
    (q.run httpd cmd ts).nodes = ts.nodes := by
  rw [AppRequest.run_eq hq h, appAliases_nodes]
  rfl

theorem runs_untimed {pairs : List (Str × Str)} {qs : List AppRequest}
    (hqs : List.Forall₂ (fun q p => AppRequest.Names httpd route [p.1] [p.2] q) qs pairs)
    (h : Addressed ts route i) :
    (qs.foldl (AppRequest.run httpd cmd) ts).untimed =
      pairs.foldl (appSingle 0 cmd (ts.nodes.peek i).mess.id) ts.untimed := by
  induction hqs generalizing ts with
  | nil => rfl
  | @cons q p qs pairs hq _ ih =>
    have hnodes : (q.run httpd cmd ts).nodes = ts.nodes := Addressed.run hq h
    have h' : Addressed (q.run httpd cmd ts) route i := by
      refine ⟨?_, ?_⟩
      · rw [hnodes]
        exact h.found
      · rw [hnodes]
        exact h.unmarked
    rw [List.foldl_cons, List.foldl_cons, ih h', AppRequest.run_untimed hq h, hnodes]
    rfl

theorem IdsOk.untimed (hok : IdsOk ts) : IdsOk ts.untimed :=
  ⟨hok.nodes, hok.stale, hok.hosts.mapData fun _ => rfl, hok.contexts.mapData fun _ => rfl, hok.balancers⟩

/-- The same hosts and contexts, slot by slot, times aside. -/
structure SameApps (ts ts' : Tables) : Prop where
  hosts : ts.hosts.view Hostinfo.untimed = ts'.hosts.view Hostinfo.untimed
  contexts : ts.contexts.view Contextinfo.untimed = ts'.contexts.view Contextinfo.untimed

/-- A batch leaves the hosts and contexts that its single commands leave. Removal
needs that no alias of a node has two hosts. -/
theorem batch_eq_singles (httpd : Httpd) (ts : Tables) (cmd : ContextStatus) (route : Str)
    (aliases contexts : List Str) (i : Nat) (q : AppRequest) (qs : List AppRequest)
    (hids : IdsOk ts) (hnode : Addressed ts route i) (hcontexts : contexts ≠ [])
    (hdistinct : cmd = .remove → AliasesDistinct ts.hosts) (hq : q.Names httpd route aliases contexts)
    (hqs : List.Forall₂ (fun q p => AppRequest.Names httpd route [p.1] [p.2] q) qs (singles aliases contexts)) :
    SameApps (q.run httpd cmd ts) (qs.foldl (AppRequest.run httpd cmd) ts) := by
  have hbatch : BatchOk cmd (ts.nodes.peek i).mess.id 0 ts.untimed :=
    ⟨hids.untimed, hnode.known hids.nodes, fun _ => vidOk_zero _ _,
      fun hcmd => (hdistinct hcmd).mapData fun _ => rfl⟩
  have heq : (q.run httpd cmd ts).untimed = (qs.foldl (AppRequest.run httpd cmd) ts).untimed := by
    rw [AppRequest.run_untimed hq hnode, runs_untimed hqs hnode]
    exact appAliases_singles hcontexts aliases hbatch
  exact ⟨view_eq_of_mapData (congrArg Tables.hosts heq), view_eq_of_mapData (congrArg Tables.contexts heq)⟩

def twoByTwo : AppRequest :=
  ⟨7, ascii "/", Argv.ofTokens [ascii "JVMRoute", ascii "n1", ascii "Alias", ascii "host1,h2", ascii "Context",
    ascii "/app,/b"]⟩

def oneByOne (now : Int) (host context : Str) : AppRequest :=
  ⟨now, ascii "/", Argv.ofTokens [ascii "JVMRoute", ascii "n1", ascii "Alias", host, ascii "Context", context]⟩

def fourSingles : List AppRequest :=
  [oneByOne 8 (ascii "host1") (ascii "/app"), oneByOne 9 (ascii "host1") (ascii "/b"),
    oneByOne 10 (ascii "h2") (ascii "/app"), oneByOne 11 (ascii "h2") (ascii "/b")]

/-- Enabling fills both tables in the middle of the batch, and removing drops the
host before the batch is through. -/
theorem twoByTwo_singles :
    SameApps (twoByTwo.run plainHttpd .enabled oneNode)
        (fourSingles.foldl (AppRequest.run plainHttpd .enabled) oneNode) ∧
      SameApps (twoByTwo.run plainHttpd .remove oneNode)
        (fourSingles.foldl (AppRequest.run plainHttpd .remove) oneNode) := by
  obtain ⟨⟨hfound, hmarked⟩, ⟨hsize, hfree⟩, hq, h11, h12, h21, h22⟩ :
      ((readNode oneNode.nodes (routeNode (ascii "n1") (-1))).1 = some 0 ∧ (oneNode.nodes.peek 0).mess.remove = false) ∧
        (oneNode.hosts.size = 2 ∧ oneNode.hosts.used 1 = none) ∧
        twoByTwo.Names plainHttpd (ascii "n1") [ascii "host1", ascii "h2"] [ascii "/app", ascii "/b"] ∧
        (oneByOne 8 (ascii "host1") (ascii "/app")).Names plainHttpd (ascii "n1") [ascii "host1"] [ascii "/app"] ∧
        (oneByOne 9 (ascii "host1") (ascii "/b")).Names plainHttpd (ascii "n1") [ascii "host1"] [ascii "/b"] ∧
        (oneByOne 10 (ascii "h2") (ascii "/app")).Names plainHttpd (ascii "n1") [ascii "h2"] [ascii "/app"] ∧
        (oneByOne 11 (ascii "h2") (ascii "/b")).Names plainHttpd (ascii "n1") [ascii "h2"] [ascii "/b"] := by
    decide +kernel
  have hnode : Addressed oneNode (ascii "n1") 0 := ⟨hfound, hmarked⟩
  have hqs : List.Forall₂ (fun q p => AppRequest.Names plainHttpd (ascii "n1") [p.1] [p.2] q) fourSingles
      (singles [ascii "host1", ascii "h2"] [ascii "/app", ascii "/b"]) :=
    .cons h11 (.cons h12 (.cons h21 (.cons h22 .nil)))
  have hdistinct : AliasesDistinct oneNode.hosts := by
    intro i j a b ha hb _
    have hi := used_lt ha
    have hj := used_lt hb
    have hi' : i ≠ 1 := by
      rintro rfl
      rw [hfree] at ha
      cases ha
    have hj' : j ≠ 1 := by
      rintro rfl
      rw [hfree] at hb
      cases hb
    omega
  exact ⟨batch_eq_singles plainHttpd oneNode .enabled (ascii "n1") _ _ 0 twoByTwo _ oneNode_reachable.loose.idsOk hnode
      (by simp) nofun hq hqs,
    batch_eq_singles plainHttpd oneNode .remove (ascii "n1") _ _ 0 twoByTwo _ oneNode_reachable.loose.idsOk hnode
      (by simp) (fun _ => hdistinct) hq hqs⟩

end ModCluster
