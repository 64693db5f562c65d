import ModCluster.AppEdits

/-!
# Aliases and vhost numbers

The hosts of a node are told apart by their alias and by their vhost number, and the
two should agree. The application commands look a host up by its alias and number a
new one above all others of the node. CONFIG numbers its aliases by their position
and looks a host up by alias and number together, so an alias that moves in the list
gets a second record.
-/

open CString Slotmem Slotmem.Table

namespace ModCluster

/-! ## No clash -/

/-- No two hosts of a node share their alias or their number. -/
def NoClash (m : Table Hostinfo) : Prop :=
  ∀ i j x y, m.used i = some x → m.used j = some y → i ≠ j → x.node = y.node →
    x.host ≠ y.host ∧ x.vhost ≠ y.vhost

/-- A new host of the node would clash with none. -/
def Fresh (m : Table Hostinfo) (node : Int) (host : Str) (vhost : Int) : Prop :=
  ∀ j y, m.used j = some y → y.node = node → y.host ≠ host ∧ y.vhost ≠ vhost

variable {m m' : Table Hostinfo} {now : Int} {cmd : ContextStatus} {ts : Tables}

theorem NoClash.poke (h : NoClash m) {i : Nat} {a x : Hostinfo} (ha : m.used i = some a)
    (hkey : sameHost x a = true) : NoClash (m.poke i x) := by
  obtain ⟨hh, hv, hn⟩ := sameHost_iff.mp hkey
  intro j k y z hy hz hjk hnode
  rcases used_of_poke hy with ⟨rfl, rfl, -⟩ | ⟨-, hy'⟩
  · rcases used_of_poke hz with ⟨rfl, -⟩ | ⟨-, hz'⟩
    · exact absurd rfl hjk
    · rw [hh, hv]
      exact h j k a z ha hz' hjk (hn.symm.trans hnode)
  · rcases used_of_poke hz with ⟨rfl, rfl, -⟩ | ⟨-, hz'⟩
    · rw [hh, hv]
      exact h j k y a hy' ha hjk (hnode.trans hn)
    · exact h j k y z hy' hz' hjk hnode

theorem NoClash.filter (h : NoClash m) {p : Hostinfo → Bool}
    (hu : ∀ j, m'.used j = (m.used j).filter p) : NoClash m' :=
  fun j k y z hy hz => h j k y z ((used_of_filter hu).mp hy).1 ((used_of_filter hu).mp hz).1

theorem NoClash.release (h : NoClash m) (id : Int) : NoClash (m.release id) := by
  unfold Table.release
  split
  · exact fun j k y z hy hz => h j k y z (used_of_free hy).2 (used_of_free hz).2
  · exact h

theorem NoClash.store (h : NoClash m) {i : Nat} {x : Hostinfo} (hfresh : Fresh m x.node x.host x.vhost) :
    NoClash (m.store i x) := by
  intro j k y z hy hz hjk hnode
  rcases used_of_store hy with ⟨rfl, rfl⟩ | ⟨-, hy'⟩
  · rcases used_of_store hz with ⟨rfl, -⟩ | ⟨-, hz'⟩
    · exact absurd rfl hjk
    · have := hfresh k z hz' hnode.symm
      exact ⟨this.1.symm, this.2.symm⟩
  · rcases used_of_store hz with ⟨rfl, rfl⟩ | ⟨-, hz'⟩
    · exact hfresh j y hy' hnode
    · exact h j k y z hy' hz' hjk hnode

/-! ## Application commands -/

theorem le_maxVhost (m : Table Hostinfo) (node vid : Int) (ids : List Int) :
    vid ≤ maxVhost m node vid ids := by
  induction ids generalizing vid with
  | nil => exact Int.le_refl vid
  | cons id ids ih =>
    unfold maxVhost
    split
    · refine Int.le_trans ?_ (ih _)
      split <;> omega
    · exact ih vid

theorem vhost_le_maxVhost {node vid : Int} {i : Nat} {x : Hostinfo} (hx : m.used i = some x)
    (hnode : x.node = node) (ids : List Int) (hmem : (i : Int) ∈ ids) :
    x.vhost ≤ maxVhost m node vid ids := by
  induction ids generalizing vid with
  | nil => cases hmem
  | cons id ids ih =>
    unfold maxVhost
    rcases List.mem_cons.mp hmem with rfl | hmem
    · have hd : getHost m (i : Int) = some i := dptr_ofNat (used_lt hx)
      simp only [hd, peek_of_used hx]
      refine Int.le_trans ?_ (le_maxVhost m node _ ids)
      split <;> omega
    · split
      · exact ih hmem
      · exact ih hmem

theorem appHost_noClash {node vid vid' : Int} {host : Str} {hosts : Table Hostinfo} {r : Option Nat}
    (hids : m.IdsMatch (·.id)) (hclash : NoClash m)
    (h : appHost now cmd m node vid host = (r, hosts, vid')) : NoClash hosts := by
  unfold appHost at h
  simp only at h
  cases hf : m.first (hasAlias (truncate HOSTALIASZ host) node) with
  | some i =>
    rw [readHost_some hids rfl hf] at h
    cases h
    exact hclash
  | none =>
    rw [readHost_none rfl hf] at h
    simp only at h
    split at h
    · cases h
      exact hclash
    split at h
    · cases h
      exact hclash
    · rename_i m₁ x hm
      cases h
      rcases insertUpdateHost_cases hm with ⟨i, a, hfi, ha, rfl, -⟩ | ⟨i, -, -, -, rfl, -⟩
      · obtain ⟨a', ha', hkey, -⟩ := first_eq_some hfi
        rw [ha, Option.some.injEq] at ha'
        subst ha'
        exact hclash.poke ha hkey
      · -- The alias is new, and the number is above all others of the node.
        refine hclash.store fun j y hy hnode => ⟨fun hh => ?_, fun hv => ?_⟩
        · have hal : hasAlias (truncate HOSTALIASZ host) node y = true := hasAlias_iff.mpr ⟨hh, hnode⟩
          rw [first_eq_none.mp hf j y hy] at hal
          cases hal
        · have hmem : (j : Int) ∈ getIdsUsedHost m := by
            rw [getIdsUsedHost_eq]
            exact (mem_ids hids).mpr ⟨j, y, hy, rfl⟩
          have hle : y.vhost ≤ maxVhost m node vid (getIdsUsedHost m) := vhost_le_maxVhost hy hnode _ hmem
          have hv' : y.vhost = maxVhost m node vid (getIdsUsedHost m) + 1 := hv
          omega

theorem dropHosts_noClash {node vhost : Int} (hids : ts.hosts.IdsMatch (·.id)) (hclash : NoClash ts.hosts) :
    NoClash (dropHosts ts node vhost).hosts := by
  unfold dropHosts
  split
  · exact hclash
  · refine hclash.filter (p := fun ou => !(ou.vhost == vhost && ou.node == node)) fun j => ?_
    rw [getIdsUsedHost_eq, sweep_used _ hids]

theorem appAliases_noClash {node : Int} {contexts : List Str} (aliases : List Str) {vid : Int} (hok : IdsOk ts)
    (hnode : ∃ k n, ts.nodes.used k = some n ∧ node = k) (hclash : NoClash ts.hosts) :
    NoClash (appAliases now cmd node contexts aliases vid ts).1.hosts := by
  have hnode' : ∃ k n, ts.nodes.used k = some n ∧ node = k ∧ (False → n.mess.jvmRoute ≠ REMOVED) := by
    obtain ⟨k, n, hn, hk⟩ := hnode
    exact ⟨k, n, hn, hk, False.elim⟩
  clear hnode
  induction aliases generalizing ts vid with
  | nil => exact hclash
  | cons host rest ih =>
    unfold appAliases
    split
    · rename_i hosts vid' hh
      obtain ⟨he, -⟩ := appHost_edits hok hnode' hh
      exact ih (he.idsOk hok) (appHost_noClash hok.hosts hclash hh) hnode'
    · rename_i i hosts vid' hh
      obtain ⟨he, hused⟩ := appHost_edits hok hnode' hh
      obtain ⟨x, hx, hxn⟩ := hused i rfl
      have hhost : HostUsed { ts with hosts := hosts } node (hosts.peek i).vhost :=
        ⟨i, x, hx, hxn, by rw [peek_of_used hx]⟩
      have hc := he.trans (@appContexts_edits _ _ now cmd _ _ contexts (he.idsOk hok) hhost)
      have hclash' := appHost_noClash hok.hosts hclash hh
      simp only
      split
      · have hd := hc.trans (@dropHosts_edits _ _ node ((hosts.peek i).vhost) (hc.idsOk hok))
        refine ih (hd.idsOk hok) (dropHosts_noClash (hc.idsOk hok).hosts hclash') ?_
        unfold dropHosts
        split <;> exact hnode'
      · exact ih (hc.idsOk hok) hclash' hnode'

theorem nodeCmdHosts_noClash {node : Int} (ids : List Int) (hclash : NoClash ts.hosts) :
    NoClash (nodeCmdHosts now cmd node ts ids).hosts := by
  induction ids generalizing ts with
  | nil => exact hclash
  | cons id ids ih =>
    unfold nodeCmdHosts
    split
    · simp only
      split
      · exact ih hclash
      · refine ih ?_
        simp only
        split
        · exact hclash.release _
        · exact hclash
    · exact ih hclash

theorem processAppCmd_noClash (httpd : Httpd) (now : Int) (filename : Str) (argv : Argv)
    (cmd : ContextStatus) (hok : IdsOk ts) (hclash : NoClash ts.hosts) :
    NoClash (processAppCmd httpd now ts filename argv cmd).tables.hosts := by
  unfold processAppCmd
  simp only
  split
  · exact hclash
  · exact hclash
  rename_i args hparse
  cases hf : ts.nodes.first (hasRoute args.jvmRoute) with
  | none =>
    rw [readNode_none rfl hf]
    exact hclash
  | some i =>
    obtain ⟨a, ha, -, -⟩ := first_eq_some hf
    rw [readNode_some hok.nodes rfl hf]
    simp only
    split
    · exact hclash
    split
    · simp only [processNodeCmd]
      split
      · exact hclash
      have hnode := @nodeCmdHosts_noClash now cmd (incVersionNode ts) (ts.nodes.peek i).mess.id
        (getIdsUsedHost ts.hosts) hclash
      split <;> exact hnode
    · refine appAliases_noClash _ ?_ ?_ hclash
      · exact (@Edit.version False _ _).idsOk hok
      · rw [peek_of_used ha]
        exact ⟨i, a, ha, hok.nodes i a ha⟩

/-! ## CONFIG -/

/-- The aliases that have no record with the number of their position, with that
number. -/
def newAliases (m : Table Hostinfo) (id : Int) : (aliases : List Str) → (vid : Int) → List (Str × Int)
  | [], _ => []
  | host :: rest, vid =>
    if (m.first (sameHost (hostRecord id vid (truncate HOSTALIASZ host)))).isSome then
      newAliases m id rest (vid + 1)
    else (truncate HOSTALIASZ host, vid) :: newAliases m id rest (vid + 1)

/-- Those of the new aliases that find a slot are different from each other, and
neither they nor their numbers are taken. -/
structure AliasesFit (m : Table Hostinfo) (id : Int) (aliases : List Str) (vid : Int) : Prop where
  nodup : (((newAliases m id aliases vid).take m.freeSlots).map (·.1)).Nodup
  fresh : ∀ a ∈ (newAliases m id aliases vid).take m.freeSlots, Fresh m id a.1 a.2

theorem newAliases_congr {id : Int} (aliases : List Str) {vid : Int}
    (h : ∀ host v, vid ≤ v → (m'.first (sameHost (hostRecord id v host))).isSome =
      (m.first (sameHost (hostRecord id v host))).isSome) :
    newAliases m' id aliases vid = newAliases m id aliases vid := by
  induction aliases generalizing vid with
  | nil => rfl
  | cons host rest ih =>
    unfold newAliases
    rw [h _ vid (Int.le_refl vid), ih fun host v hv => h host v (by omega)]

theorem le_newAliases {id : Int} (aliases : List Str) {vid : Int} (a : Str × Int)
    (h : a ∈ newAliases m id aliases vid) : vid ≤ a.2 := by
  induction aliases generalizing vid with
  | nil => cases h
  | cons host rest ih =>
    unfold newAliases at h
    split at h
    · have := ih h
      omega
    · rcases List.mem_cons.mp h with rfl | h
      · exact Int.le_refl vid
      · have := ih h
        omega

theorem AliasesFit.known {id : Int} {host : Str} {rest : List Str} {vid : Int} {i : Nat} {a x : Hostinfo}
    (h : AliasesFit m id (host :: rest) vid)
    (hf : m.first (sameHost (hostRecord id vid (truncate HOSTALIASZ host))) = some i)
    (ha : m.used i = some a) (hkey : sameHost x a = true) : AliasesFit (m.poke i x) id rest (vid + 1) := by
  obtain ⟨hh, hv, hn⟩ := sameHost_iff.mp hkey
  have heq : newAliases (m.poke i x) id rest (vid + 1) = newAliases m id (host :: rest) vid := by
    rw [newAliases_congr (m := m) rest fun host v _ => by
      rw [first_poke ha (by simp only [sameHost, hh, hv, hn])]]
    conv_rhs => unfold newAliases
    rw [hf, if_pos Option.isSome_some]
  constructor
  · rw [heq, freeSlots_poke]
    exact h.nodup
  · rw [heq, freeSlots_poke]
    intro b hb j y hy hnode
    rcases used_of_poke hy with ⟨rfl, rfl, -⟩ | ⟨-, hy'⟩
    · rw [hh, hv]
      exact h.fresh b hb j a ha (hn.symm.trans hnode)
    · exact h.fresh b hb j y hy' hnode

theorem AliasesFit.new {id : Int} {host : Str} {rest : List Str} {vid : Int} {i : Nat} {x : Hostinfo}
    (h : AliasesFit m id (host :: rest) vid)
    (hf : m.first (sameHost (hostRecord id vid (truncate HOSTALIASZ host))) = none)
    (hlt : i < m.size) (hfree : m.used i = none)
    (hkey : sameHost (hostRecord id vid (truncate HOSTALIASZ host)) x = true) :
    Fresh m id (truncate HOSTALIASZ host) vid ∧ AliasesFit (m.store i x) id rest (vid + 1) := by
  obtain ⟨hh, hv, hn⟩ := sameHost_iff.mp hkey
  have hslots := freeSlots_store x hlt hfree
  have heq : newAliases (m.store i x) id rest (vid + 1) = newAliases m id rest (vid + 1) := by
    refine newAliases_congr rest fun host' v hle => first_store_isSome hfree ?_
    by_contra hsame
    obtain ⟨-, hv', -⟩ := sameHost_iff.mp (eq_true_of_ne_false hsame)
    have h1 : v = x.vhost := hv'
    have h2 : vid = x.vhost := hv
    omega
  have htake : (newAliases m id (host :: rest) vid).take m.freeSlots =
      (truncate HOSTALIASZ host, vid) :: (newAliases m id rest (vid + 1)).take (m.store i x).freeSlots := by
    conv_lhs => unfold newAliases
    rw [hf, hslots]
    rfl
  have hnodup := h.nodup
  have hfresh := h.fresh
  rw [htake] at hnodup hfresh
  rw [List.map_cons, List.nodup_cons] at hnodup
  refine ⟨hfresh _ List.mem_cons_self, ⟨?_, ?_⟩⟩
  · rw [heq]
    exact hnodup.2
  · rw [heq]
    intro b hb j y hy hnode
    rcases used_of_store hy with ⟨rfl, rfl⟩ | ⟨-, hy'⟩
    · refine ⟨fun hhost => hnodup.1 ?_, fun hvhost => ?_⟩
      · rw [show truncate HOSTALIASZ host = b.1 from hh.trans hhost]
        exact List.mem_map.mpr ⟨b, hb, rfl⟩
      · have h1 := le_newAliases rest b (List.mem_of_mem_take hb)
        have h2 : vid = y.vhost := hv
        omega
    · exact hfresh b (List.mem_cons_of_mem _ hb) j y hy' hnode

theorem addAliases_noClash {id : Int} {contexts : List Str} (aliases : List Str) {vid : Int}
    (hfit : AliasesFit ts.hosts id aliases vid) (hclash : NoClash ts.hosts) :
    NoClash (addAliases now id contexts aliases vid ts).1.hosts := by
  induction aliases generalizing ts vid with
  | nil => exact hclash
  | cons host rest ih =>
    unfold addAliases
    split
    · -- The table is full, and stays so.
      rename_i hnone
      have hnone' : insertUpdateHost now ts.hosts (hostRecord id vid (truncate HOSTALIASZ host)) = none := hnone
      have hfull := freeSlots_of_grab_none (insertUpdateHost_eq_none.mp hnone').2
      refine ih ⟨?_, ?_⟩ hclash
      · rw [hfull]
        exact List.nodup_nil
      · rw [hfull]
        intro a ha
        cases ha
    · rename_i hosts x hm
      rcases insertUpdateHost_cases hm with ⟨i, a, hf, ha, rfl, -⟩ | ⟨i, hf, hlt, hfree, rfl, -⟩
      · obtain ⟨a', ha', hkey, -⟩ := first_eq_some hf
        rw [ha, Option.some.injEq] at ha'
        subst ha'
        exact ih (hfit.known hf ha hkey) (hclash.poke ha hkey)
      · obtain ⟨hfresh, hrest⟩ := hfit.new hf hlt hfree (x := { hostRecord id vid (truncate HOSTALIASZ host) with
          id := i, updatetime := aprTimeSec now }) (sameHost_iff.mpr ⟨rfl, rfl, rfl⟩)
        exact ih hrest (hclash.store hfresh)

end ModCluster
