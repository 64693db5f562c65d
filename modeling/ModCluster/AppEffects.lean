import ModCluster.AppGiven

/-!
# What a command on aliases and contexts changes

REMOVE-APP takes the contexts away and drops a host that has none left. The other commands
leave what they list.
-/

open CString Slotmem Slotmem.Table

namespace ModCluster

/-! ## Removal -/

/-- The contexts of the node for which `named` holds are gone, and no others. -/
def Withdrawn (node : Int) (named : Str → Int → Prop) (m m' : Table Contextinfo) : Prop :=
  ∀ j c, m'.used j = some c ↔ m.used j = some c ∧ ¬ (c.node = node ∧ named c.context c.vhost)

/-- The node has no context on the vhost. -/
def Bare (m : Table Contextinfo) (node vhost : Int) : Prop :=
  ∀ k c, m.used k = some c → ¬ (c.node = node ∧ c.vhost = vhost)

/-- What REMOVE-APP does to the hosts and contexts of a node: the contexts go that it
names, and the named hosts that have none left. -/
structure AppsRemoved (node : Int) (aliases contexts : List Str) (ts ts' : Tables) : Prop where
  contexts : Withdrawn node (fun x v => x ∈ contexts ∧ OnNamed ts.hosts node aliases v) ts.contexts ts'.contexts
  hosts : ∀ j x, ts'.hosts.used j = some x ↔
    ts.hosts.used j = some x ∧ ¬ (x.node = node ∧ x.host ∈ aliases ∧ Bare ts'.contexts node x.vhost)

section Removal

variable {m m' m'' : Table Contextinfo} {now : Int} {node vid vhost : Int} {host context : Str}
  {named named' : Str → Int → Prop} {aliases contexts : List Str} {ts ts' ts'' : Tables}

theorem Withdrawn.refl : Withdrawn node (fun _ _ => False) m m := by
  intro j c
  simp

theorem Withdrawn.trans (h : Withdrawn node named m m') (h' : Withdrawn node named' m' m'') :
    Withdrawn node (fun context vhost => named context vhost ∨ named' context vhost) m m'' := by
  intro j c
  rw [h' j c, h j c, and_assoc, ← not_or, ← and_or_left]

theorem Withdrawn.congr (h : Withdrawn node named m m')
    (hiff : ∀ context vhost, named context vhost ↔ named' context vhost) : Withdrawn node named' m m' := by
  intro j c
  rw [h j c, hiff]

theorem Withdrawn.distinct (h : Withdrawn node named m m') (hkeyed : m.Distinct Contextinfo.key) :
    m'.Distinct Contextinfo.key :=
  fun i j a b ha hb => hkeyed i j a b ((h i a).1 ha).1 ((h j b).1 hb).1

theorem Withdrawn.idsMatch (h : Withdrawn node named m m') (hids : m.IdsMatch (·.id)) : m'.IdsMatch (·.id) :=
  fun i a ha => hids i a ((h i a).1 ha).1

theorem readRemoveContext_withdrawn (hids : m.IdsMatch (·.id)) (hkeyed : m.Distinct Contextinfo.key) :
    Withdrawn node (fun x v => x = context ∧ v = vhost) m
      (readRemoveContext m (storedContext .remove node vhost context)) := by
  intro j c
  have hid : (storedContext .remove node vhost context).id = 0 := rfl
  cases hf : m.first (sameContext (storedContext .remove node vhost context)) with
  | none =>
    have hread : readContext m (storedContext .remove node vhost context) = none := by
      unfold readContext
      rw [if_pos hid, readBy_none (Context.locReadContext_eq _) hf]
    simp only [readRemoveContext, hread]
    refine ⟨fun hc => ⟨hc, fun hnamed => ?_⟩, And.left⟩
    have hmiss := first_eq_none.1 hf j c hc
    rw [sameContext_stored.2 hnamed] at hmiss
    cases hmiss
  | some i =>
    obtain ⟨a, ha, hsame, -⟩ := first_eq_some hf
    simp only [readRemoveContext, readContext_some hids hid hf, peek_of_used ha, hids i a ha, removeContext,
      release_ofNat]
    constructor
    · intro hc
      obtain ⟨hij, hc⟩ := used_of_free hc
      refine ⟨hc, fun hnamed => hij (hkeyed i j a c ha hc (Contextinfo.key_eq.2 (sameContext_iff.2 ?_)))⟩
      obtain ⟨hn, hx, hv⟩ := sameContext_stored.1 hsame
      exact ⟨hx.trans hnamed.2.1.symm, hv.trans hnamed.2.2.symm, hn.trans hnamed.1.symm⟩
    · rintro ⟨hc, hnot⟩
      have hij : i ≠ j := by
        rintro rfl
        cases ha.symm.trans hc
        exact hnot (sameContext_stored.1 hsame)
      rw [used_setInuse_ne _ hij, hc]

theorem appContexts_withdrawn (contexts : List Str) (hfits : ∀ c ∈ contexts, c.length ≤ CONTEXTSZ)
    (hids : m.IdsMatch (·.id)) (hkeyed : m.Distinct Contextinfo.key) :
    Withdrawn node (fun x v => x ∈ contexts ∧ v = vhost) m (appContexts now .remove node vhost contexts m).1 := by
  induction contexts generalizing m with
  | nil =>
    refine Withdrawn.refl.congr fun x v => ?_
    simp
  | cons context rest ih =>
    obtain ⟨hfit, hrest⟩ := List.forall_mem_cons.1 hfits
    have hone := @readRemoveContext_withdrawn m node vhost context hids hkeyed
    have hhelper : insertUpdateContextHelper now m (contextRecord node vhost .remove) context .remove =
        some (readRemoveContext m (storedContext .remove node vhost context)) := by
      unfold insertUpdateContextHelper
      simp only [if_true]
      rw [truncate, List.take_of_length_le hfit]
      rfl
    rw [appContexts, hhelper]
    refine (hone.trans (ih hrest (hone.idsMatch hids) (hone.distinct hkeyed))).congr fun x v => ?_
    rw [List.mem_cons, or_and_right]

theorem hasContext_iff (hids : m.IdsMatch (·.id)) : hasContext m node vhost = false ↔ Bare m node vhost := by
  constructor
  · exact hasContext_eq_false hids
  · intro hbare
    unfold hasContext
    rw [getIdsUsedContext_eq, List.any_eq_false]
    intro id hid
    obtain ⟨k, c, hc, rfl⟩ := (mem_ids hids).1 hid
    have hd : getContext m (k : Int) = some k := dptr_ofNat (used_lt hc)
    simp only [hd, peek_of_used hc, Bool.and_eq_true, beq_iff_eq]
    exact fun ⟨hv, hn⟩ => hbare k c hc ⟨hn, hv⟩

theorem appAlias_removed (hcontexts : ∀ c ∈ contexts, c.length ≤ CONTEXTSZ) (hfits : host.length ≤ HOSTALIASZ)
    (hok : IdsOk ts) (hclash : NoClash ts.hosts) (hkeyed : ts.contexts.Distinct Contextinfo.key) :
    AppsRemoved node [host] contexts ts (appAliases now .remove node contexts [host] vid ts).1 := by
  have htake : truncate HOSTALIASZ host = host := List.take_of_length_le hfits
  rw [appAliases_one]
  cases hf : ts.hosts.first (hasAlias (truncate HOSTALIASZ host) node) with
  | none =>
    have hmiss (j : Nat) (x : Hostinfo) (hx : ts.hosts.used j = some x) : ¬ (x.node = node ∧ x.host = host) := by
      rintro ⟨hn, hh⟩
      have hno := first_eq_none.1 hf j x hx
      rw [hasAlias_iff.2 ⟨hh.trans htake.symm, hn⟩] at hno
      cases hno
    rw [appHost_unknown hf]
    simp only [atHost]
    refine ⟨Withdrawn.refl.congr fun x v => ?_, fun j x => ?_⟩
    · rw [false_iff]
      rintro ⟨-, j, y, hy, hyn, hmem, -⟩
      exact hmiss j y hy ⟨hyn, List.mem_singleton.1 hmem⟩
    · refine ⟨fun hx => ⟨hx, fun hgone => hmiss j x hx ⟨hgone.1, List.mem_singleton.1 hgone.2.1⟩⟩, And.left⟩
  | some i =>
    obtain ⟨x, hx, hal, -⟩ := first_eq_some hf
    obtain ⟨hxh, hxn⟩ := hasAlias_iff.1 hal
    rw [htake] at hxh
    have honly (j : Nat) (y : Hostinfo) (hy : ts.hosts.used j = some y) (hyn : y.node = node)
        (hsame : y.host = host ∨ y.vhost = x.vhost) : x = y :=
      (hclash.same hx hy (hxn.trans hyn.symm)
        (hsame.imp (fun hh => hxh.trans hh.symm) fun hv => hv.symm)).2
    have hcs := @appContexts_withdrawn ts.contexts now node x.vhost contexts hcontexts hok.contexts hkeyed
    have hids := hcs.idsMatch hok.contexts
    rw [appHost_found hok.hosts hf]
    simp only [atHost, if_true, peek_of_used hx]
    obtain ⟨contexts', hcontexts'⟩ : ∃ contexts', (appContexts now .remove node x.vhost contexts ts.contexts).1 =
      contexts' := ⟨_, rfl⟩
    simp only [hcontexts'] at hcs hids ⊢
    have hsamecs : (dropHosts { ts with contexts := contexts' } node x.vhost).contexts = contexts' := by
      unfold dropHosts
      split <;> rfl
    refine ⟨?_, fun j y => ?_⟩
    · rw [hsamecs]
      refine hcs.congr fun w v => and_congr_right fun _ => ?_
      constructor
      · rintro rfl
        exact ⟨i, x, hx, hxn, List.mem_singleton.2 hxh, rfl⟩
      · rintro ⟨j, y, hy, hyn, hmem, hyv⟩
        rw [← hyv, honly j y hy hyn (Or.inl (List.mem_singleton.1 hmem))]
    · rw [hsamecs, List.mem_singleton]
      have hself (hy : ts.hosts.used j = some y) :
          y.node = node ∧ y.host = host ↔ y.vhost = x.vhost ∧ y.node = node := by
        constructor
        · rintro ⟨hyn, hyh⟩
          exact ⟨by rw [honly j y hy hyn (Or.inl hyh)], hyn⟩
        · rintro ⟨hyv, hyn⟩
          rw [← honly j y hy hyn (Or.inr hyv)]
          exact ⟨hxn, hxh⟩
      cases hgone : hasContext contexts' node x.vhost with
      | true =>
        have hkept : ¬ Bare contexts' node x.vhost := by
          rw [← hasContext_iff hids, hgone]
          decide
        unfold dropHosts
        rw [if_pos hgone]
        refine ⟨fun hy => ⟨hy, fun hdrop => hkept ?_⟩, And.left⟩
        rw [honly j y hy hdrop.1 (Or.inl hdrop.2.1)]
        exact hdrop.2.2
      | false =>
        have hbare := (hasContext_iff hids).1 hgone
        rw [@dropHosts_hosts _ { ts with contexts := contexts' } _ hok.hosts j hgone, Option.filter_eq_some_iff]
        refine and_congr_right fun hy => ?_
        have hboth := hself hy
        rw [Bool.not_eq_true', Bool.and_eq_false_iff, beq_eq_false_iff_ne, beq_eq_false_iff_ne]
        constructor
        · rintro hne ⟨hyn, hyh, -⟩
          obtain ⟨hyv, -⟩ := hboth.1 ⟨hyn, hyh⟩
          exact hne.elim (fun h => h hyv) fun h => h hyn
        · intro hkeep
          by_contra hboth'
          rw [not_or, not_not, not_not] at hboth'
          obtain ⟨hyn, hyh⟩ := hboth.2 hboth'
          refine hkeep ⟨hyn, hyh, ?_⟩
          rw [hboth'.1]
          exact hbare

theorem AppsRemoved.cons (hclash : NoClash ts.hosts) (h : AppsRemoved node [host] contexts ts ts')
    (h' : AppsRemoved node aliases contexts ts' ts'') : AppsRemoved node (host :: aliases) contexts ts ts'' := by
  refine ⟨(h.contexts.trans h'.contexts).congr fun x v => ?_, fun j x => ?_⟩
  · rw [← and_or_left]
    refine and_congr_right fun _ => ?_
    constructor
    · rintro (⟨j, y, hy, hyn, hmem, hyv⟩ | ⟨j, y, hy, hyn, hmem, hyv⟩)
      · exact ⟨j, y, hy, hyn, by rw [List.mem_singleton.1 hmem]; exact List.mem_cons_self .., hyv⟩
      · exact ⟨j, y, ((h.hosts j y).1 hy).1, hyn, List.mem_cons_of_mem _ hmem, hyv⟩
    · rintro ⟨j, y, hy, hyn, hmem, hyv⟩
      by_cases hhost : y.host = host
      · exact Or.inl ⟨j, y, hy, hyn, List.mem_singleton.2 hhost, hyv⟩
      · refine Or.inr ⟨j, y, (h.hosts j y).2 ⟨hy, fun hgone => hhost (List.mem_singleton.1 hgone.2.1)⟩, hyn, ?_, hyv⟩
        exact (List.mem_cons.1 hmem).resolve_left hhost
  · rw [h'.hosts j x, h.hosts j x, and_assoc]
    refine and_congr_right fun hx => ?_
    constructor
    · rintro ⟨hfirst, hrest⟩ ⟨hn, hmem, hbare⟩
      have hnot : x.host ∉ aliases := fun hin => hrest ⟨hn, hin, hbare⟩
      refine hfirst ⟨hn, List.mem_singleton.2 ((List.mem_cons.1 hmem).resolve_right hnot), fun k c hc hon => ?_⟩
      -- Had the rest of the command removed the context, it would have named the host.
      by_cases hnamed : c.context ∈ contexts ∧ OnNamed ts'.hosts node aliases c.vhost
      · obtain ⟨-, l, y, hy, hyn, hin, hyv⟩ := hnamed
        have hsame := (hclash.same hx ((h.hosts l y).1 hy).1 (hn.trans hyn.symm) (Or.inr (hon.2.symm.trans hyv.symm))).2
        rw [hsame] at hnot
        exact hnot hin
      · exact hbare k c ((h'.contexts k c).2 ⟨hc, fun hboth => hnamed hboth.2⟩) hon
    · intro hkeep
      refine ⟨fun ⟨hn, hmem, hbare⟩ => hkeep ⟨hn, ?_, fun k c hc => hbare k c ((h'.contexts k c).1 hc).1⟩,
        fun ⟨hn, hmem, hbare⟩ => hkeep ⟨hn, List.mem_cons_of_mem _ hmem, hbare⟩⟩
      rw [List.mem_singleton.1 hmem]
      exact List.mem_cons_self ..

theorem appAliases_removed (hcontexts : ∀ c ∈ contexts, c.length ≤ CONTEXTSZ)
    (haliases : ∀ a ∈ aliases, a.length ≤ HOSTALIASZ) (hok : IdsOk ts) (hknown : NodeKnown ts node)
    (hclash : NoClash ts.hosts) (hkeyed : ts.contexts.Distinct Contextinfo.key) :
    AppsRemoved node aliases contexts ts (appAliases now .remove node contexts aliases vid ts).1 := by
  induction aliases generalizing ts vid with
  | nil =>
    refine ⟨Withdrawn.refl.congr fun x v => ?_, fun j x => ?_⟩
    · simp [OnNamed]
    · simp [appAliases]
  | cons host rest ih =>
    obtain ⟨hfit, hrest⟩ := List.forall_mem_cons.1 haliases
    have hone := @appAlias_removed now node vid host contexts ts hcontexts hfit hok hclash hkeyed
    rw [appAliases_cons, ← appAliases_one]
    exact hone.cons hclash (ih hrest (appAliases_idsOk hok hknown _ _) (hknown.appAliases _ _)
      (appAliases_noClash _ hok hknown hclash) (hone.contexts.distinct hkeyed))

end Removal

/-! ## The command -/

/-- What ENABLE-, DISABLE- and STOP-APP leave: a host for each alias there was room for,
and on these the contexts there was room for, with the status. -/
structure AppsGiven (now : Int) (cmd : ContextStatus) (node : Int) (aliases names : List Str) (ts ts' : Tables) :
    Prop where
  hosts : HostsMade node aliases ts.hosts ts'.hosts
  contexts : Given now cmd node (fun x v => x ∈ names ∧ OnNamed ts'.hosts node aliases v) ts.contexts ts'.contexts
  status : ∀ j c, ts'.contexts.used j = some c → c.node = node → c.context ∈ names →
    OnNamed ts'.hosts node aliases c.vhost → c.status = cmd

structure SameRest (ts ts' : Tables) : Prop where
  nodes : ts'.nodes = ts.nodes
  balancers : ts'.balancers = ts.balancers
  domains : ts'.domains = ts.domains

section Command

variable {now : Int} {cmd : ContextStatus} {node vid : Int} {contexts : List Str} {ts : Tables}

theorem Given.status {named : Str → Int → Prop} {m m' : Table Contextinfo} (h : Given now cmd node named m m') {j : Nat}
    {c : Contextinfo} (hc : m'.used j = some c) (hn : c.node = node) (hnamed : named c.context c.vhost) :
    c.status = cmd := by
  cases hold : m.used j with
  | none => exact (h.added j c hold hc).2.2
  | some c' =>
    by_cases hnamed' : c'.node = node ∧ named c'.context c'.vhost
    · cases hc.symm.trans (h.changed j c' hold hnamed'.1 hnamed'.2)
      rfl
    · cases hc.symm.trans (h.others j c' hold hnamed')
      exact absurd ⟨hn, hnamed⟩ hnamed'

theorem appAliases_rest (aliases : List Str) : SameRest ts (appAliases now cmd node contexts aliases vid ts).1 := by
  induction aliases generalizing vid ts with
  | nil => exact ⟨rfl, rfl, rfl⟩
  | cons host rest ih =>
    have hone : SameRest ts (atHost now cmd node contexts (appHost now cmd ts.hosts node vid host).1
        (appHost now cmd ts.hosts node vid host).2.1 ts) := by
      unfold atHost
      split
      · exact ⟨rfl, rfl, rfl⟩
      split
      · unfold dropHosts
        split <;> exact ⟨rfl, rfl, rfl⟩
      · exact ⟨rfl, rfl, rfl⟩
    rw [appAliases_cons]
    exact ⟨ih.nodes.trans hone.nodes, ih.balancers.trans hone.balancers, ih.domains.trans hone.domains⟩

theorem parseApp_lists_ne {httpd : Httpd} {argv : Argv} {args : AppArgs} (h : parseApp httpd false argv = .ok args) :
    args.aliases ≠ [] ∧ args.contexts ≠ [] := by
  unfold parseApp at h
  split at h
  · cases h
  split at h
  · cases h
  split at h
  · cases h
  split at h
  · cases h
  rename_i hcontexts
  split at h
  · cases h
  rename_i haliases
  cases h
  exact ⟨fun hnil => haliases ⟨rfl, List.map_eq_nil_iff.1 hnil⟩,
    fun hnil => hcontexts ⟨rfl, List.map_eq_nil_iff.1 hnil⟩⟩

/-- A command on aliases and contexts changes what it names and lists what is there
afterwards. It may be given any tables whose records know their slots, whose contexts
differ in their keys and whose hosts of a node differ in alias and number. A command that
is rejected changes nothing, whatever the tables. -/
theorem app_effect (httpd : Httpd) (ts : Tables) (now : Int) (filename : Str) (argv : Argv) (cmd : ContextStatus) :
    (∀ (args : AppArgs) (i : Nat), filename ≠ NODE_COMMAND → parseApp httpd false argv = .ok args → IdsOk ts →
      ts.contexts.Distinct Contextinfo.key → NoClash ts.hosts → Addressed ts args.jvmRoute i →
        (processAppCmd httpd now ts filename argv cmd).outcome = .done ∧
        args.aliases ≠ [] ∧ args.contexts ≠ [] ∧
        SameRest ts (processAppCmd httpd now ts filename argv cmd).tables ∧
        (cmd ≠ .remove →
          AppsGiven now cmd i args.aliases args.contexts ts (processAppCmd httpd now ts filename argv cmd).tables ∧
          (processAppCmd httpd now ts filename argv cmd).response =
            some (appListing cmd args.jvmRoute (args.aliases.map fun a =>
              (a, args.contexts.filter (carriedBy (processAppCmd httpd now ts filename argv cmd).tables i a))))) ∧
        (cmd = .remove →
          AppsRemoved i args.aliases args.contexts ts (processAppCmd httpd now ts filename argv cmd).tables)) ∧
    ((processAppCmd httpd now ts filename argv cmd).outcome ≠ .done →
      (processAppCmd httpd now ts filename argv cmd).tables = ts) := by
  refine ⟨fun args i hfile hargs hok hkeyed hclash hnode => ?_, fun hrejected => ?_⟩
  · obtain ⟨a, ha, -, hid⟩ := hnode.node hok.nodes
    have hfit := parseApp_fit hargs
    obtain ⟨haliases, hcontexts⟩ := parseApp_lists_ne hargs
    have hglob : (filename == NODE_COMMAND) = false := beq_eq_false_iff_ne.2 hfile
    have hpeek : (ts.nodes.peek i).mess.id = i := (congrArg (·.mess.id) (peek_of_used ha)).trans hid
    have hok' : IdsOk (incVersionNode ts) := ⟨hok.nodes, hok.stale, hok.hosts, hok.contexts, hok.balancers⟩
    have hknown : NodeKnown (incVersionNode ts) i := ⟨i, a, ha, rfl⟩
    unfold processAppCmd
    simp only [hglob, hargs, hnode.found, hnode.unmarked, hpeek, Bool.false_eq_true, if_false, true_and]
    refine ⟨haliases, hcontexts, ?_, fun hcmd => ?_, ?_⟩
    · obtain ⟨hnodes, hbalancers, hdomains⟩ :=
        @appAliases_rest now cmd i 0 args.contexts (incVersionNode ts) args.aliases
      exact ⟨hnodes, hbalancers, hdomains⟩
    · obtain ⟨hmade, hgiven, hflags⟩ := @appAliases_given now cmd i 0 args.aliases args.contexts (incVersionNode ts)
        hcmd hfit.contexts hfit.aliases hok' hknown hclash hkeyed
      refine ⟨⟨hmade, hgiven, fun j c hc hn hmem hon => hgiven.status hc hn ⟨hmem, hon⟩⟩, ?_⟩
      rw [hflags, printAppCmdResponse_eq hfit.route _ hfit.aliases]
    · rintro rfl
      obtain ⟨hwithdrawn, hhosts⟩ := @appAliases_removed now i 0 args.aliases args.contexts (incVersionNode ts)
        hfit.contexts hfit.aliases hok' hknown hclash hkeyed
      exact ⟨hwithdrawn, hhosts⟩
  · unfold processAppCmd at hrejected ⊢
    simp only at hrejected ⊢
    split
    · rfl
    · rfl
    · rename_i args hargs
      simp only [hargs] at hrejected
      split
      · rfl
      · rename_i i hi
        simp only [hi] at hrejected
        split
        · rfl
        · rename_i hremove
          rw [if_neg hremove] at hrejected
          split at hrejected
          · exact absurd rfl hrejected
          · exact absurd rfl hrejected

end Command

/-! ### Two aliases and two contexts -/

theorem oneNode_room : (parseApp plainHttpd false twoByTwo.argv).map (fun args =>
      decide (args = ⟨ascii "n1", [ascii "host1", ascii "h2"], [ascii "/app", ascii "/b"]⟩)) = .ok true ∧
    ((readNode oneNode.nodes (routeNode (ascii "n1") (-1))).1 = some 0 ∧ (oneNode.nodes.peek 0).mess.remove = false) ∧
    oneNode.hosts.size = 2 ∧ oneNode.hosts.used 1 = none ∧
    [ascii "host1", ascii "h2"].map (fun a => (a, [ascii "/app", ascii "/b"].filter
      (carriedBy (processAppCmd plainHttpd 7 oneNode (ascii "/") twoByTwo.argv .enabled).tables 0 a))) =
        [(ascii "host1", [ascii "/app", ascii "/b"]), (ascii "h2", [])] := by
  decide +kernel

theorem oneNode_noClash : NoClash oneNode.hosts := by
  obtain ⟨-, -, hsize, hfree, -⟩ := oneNode_room
  have hzero (j : Nat) (x : Hostinfo) (hx : oneNode.hosts.used j = some x) : j = 0 := by
    have hlt := used_lt hx
    rw [hsize] at hlt
    have hne : j ≠ 1 := by
      rintro rfl
      rw [hfree] at hx
      cases hx
    omega
  intro i j x y hx hy hij
  exact absurd ((hzero i x hx).trans (hzero j y hy).symm) hij

/-- ENABLE-APP stores the second context on the first alias and lists both. For the second
alias it makes a host, and lists nothing. REMOVE-APP leaves neither. -/
theorem twoByTwo_effect :
    (processAppCmd plainHttpd 7 oneNode (ascii "/") twoByTwo.argv .enabled).response =
        some (appListing .enabled (ascii "n1") [(ascii "host1", [ascii "/app", ascii "/b"]), (ascii "h2", [])]) ∧
      AppsRemoved 0 [ascii "host1", ascii "h2"] [ascii "/app", ascii "/b"] oneNode
        (processAppCmd plainHttpd 7 oneNode (ascii "/") twoByTwo.argv .remove).tables := by
  obtain ⟨hparse, ⟨hfound, hunmarked⟩, -, -, hcarried⟩ := oneNode_room
  obtain ⟨args, hargs, heq⟩ := exists_of_map_ok hparse
  have hdecided := of_decide_eq_true heq
  subst hdecided
  have hreach : Reachable plainHttpd False oneNode := oneNode_reachable.loose
  have hnode : Addressed oneNode (ascii "n1") 0 := ⟨hfound, hunmarked⟩
  have hfile : ascii "/" ≠ NODE_COMMAND := by decide
  have henable := (app_effect plainHttpd oneNode 7 (ascii "/") twoByTwo.argv .enabled).1 _ 0 hfile hargs hreach.idsOk
    hreach.keyed.contexts oneNode_noClash hnode
  have hremove := (app_effect plainHttpd oneNode 7 (ascii "/") twoByTwo.argv .remove).1 _ 0 hfile hargs hreach.idsOk
    hreach.keyed.contexts oneNode_noClash hnode
  refine ⟨?_, hremove.2.2.2.2.2 rfl⟩
  exact (henable.2.2.2.2.1 (by decide)).2.trans
    (congrArg (fun rows => some (appListing .enabled (ascii "n1") rows)) hcarried)

end ModCluster
