import ModCluster.Lib.Batch
import ModCluster.PageCommands

/-!
# Commands for a domain

The page walks over the nodes of a domain and gives each the command with its JVMRoute
behind the page's own parameters. MCMP gets one wildcard request for each of them.
-/

open CString Slotmem Slotmem.Table

namespace ModCluster

section Domains

variable {httpd : Httpd} {u : Unescaper} {conf : PageConf} {now : Int} {ts : Tables} {uri : Str} {behind : Mem}
  {cmd : AppCommand} {status : ContextStatus}

/-! ## One node -/

theorem fieldsMem_other {key val : Nat} {rest : List Nat} {mem : Mem}
    (h : isOtherKey (strAt mem key) = true) : fieldsMem httpd (key :: val :: rest) mem = fieldsMem httpd rest mem := by
  simp only [isOtherKey, Bool.and_eq_true, Bool.not_eq_true'] at h
  obtain ⟨⟨hroute, halias⟩, hcontext⟩ := h
  rw [fieldsMem]
  simp only [processContextAlias, contextAliasMem, hroute, halias, hcontext, Bool.false_eq_true, false_and, if_false]

theorem withRoute_eq (extra : List (Str × Str)) (behind : Mem) (j : Str) :
    withRoute (tokenArgv (pairTokens extra) behind) j =
      { mem := tokenMem (pairTokens extra) ++ behind ++ tokenMem (routeTokens j)
        ptr := tokenOffsets 0 (pairTokens extra) ++
          (tokenOffsets 0 (routeTokens j)).map ((tokenMem (pairTokens extra) ++ behind).length + ·) } := by
  unfold withRoute routeTokens
  rw [tokenMem_cons, tokenMem_cons]
  simp only [tokenArgv, List.append_assoc]
  rfl

theorem withRoute_parse {extra : List (Str × Str)} (h : ∀ p ∈ extra, 0 ∉ p.1 ∧ isOtherKey p.1 = true) (glob : Bool)
    (behind : Mem) (j : Str) :
    parseApp httpd glob (withRoute (tokenArgv (pairTokens extra) behind) j) =
      parseApp httpd glob (tokenArgv (routeTokens j) []) := by
  rw [withRoute_eq, tokenArgv_nil]
  exact parseApp_extra httpd glob h behind { mem := tokenMem (routeTokens j), ptr := tokenOffsets 0 (routeTokens j) }

theorem withRoute_mem {extra : List (Str × Str)} (h : ∀ p ∈ extra, 0 ∉ p.1 ∧ isOtherKey p.1 = true) (behind : Mem)
    (j : Str) :
    fieldsMem httpd (withRoute (tokenArgv (pairTokens extra) behind) j).ptr
      (withRoute (tokenArgv (pairTokens extra) behind) j).mem =
        (withRoute (tokenArgv (pairTokens extra) behind) j).mem := by
  rw [withRoute_eq]
  have hpasses := passes_extra
    (fun ptr => fieldsMem httpd ptr (tokenMem (pairTokens extra) ++ behind ++ tokenMem (routeTokens j)))
    (fun _ _ _ hkey => fieldsMem_other hkey) h [] (behind ++ tokenMem (routeTokens j))
    ((tokenOffsets 0 (routeTokens j)).map ((tokenMem (pairTokens extra) ++ behind).length + ·)) (List.append_assoc _ _ _)
  have hkey : strAt (tokenMem (pairTokens extra) ++ behind ++ tokenMem (routeTokens j))
      ((tokenMem (pairTokens extra) ++ behind).length + 0) = ascii "JVMRoute" := by
    rw [strAt_append, routeTokens, tokenMem_cons]
    exact strAt_zero (by decide) _
  rw [List.length_nil] at hpasses
  refine hpasses.trans ?_
  show fieldsMem httpd [(tokenMem (pairTokens extra) ++ behind).length + 0, _] _ = _
  rw [fieldsMem]
  split
  · rfl
  · have hsame (val : Nat) : contextAliasMem ((tokenMem (pairTokens extra) ++ behind).length + 0) val
        (tokenMem (pairTokens extra) ++ behind ++ tokenMem (routeTokens j)) =
          tokenMem (pairTokens extra) ++ behind ++ tokenMem (routeTokens j) := by
      unfold contextAliasMem
      rw [hkey, if_neg (by decide), if_neg (by decide)]
    rw [hsame]
    split <;> rfl

theorem domainNode_eq {extra : List (Str × Str)} (h : ∀ p ∈ extra, 0 ∉ p.1 ∧ isOtherKey p.1 = true) {w : Walk}
    (hmem : w.mem = (tokenArgv (pairTokens extra) behind).mem) {j : Str} (hj : 0 ∉ j) :
    (domainNode httpd now uri (some cmd.status) (tokenArgv (pairTokens extra) behind).ptr w j).tables =
        (if uri = NODE_COMMAND then wildcardCommand httpd now cmd w.tables j else w.tables) ∧
      (domainNode httpd now uri (some cmd.status) (tokenArgv (pairTokens extra) behind).ptr w j).mem =
        (tokenArgv (pairTokens extra) behind).mem := by
  unfold domainNode
  simp only [hmem]
  constructor
  · rw [processAppCmd_congr rfl (withRoute_parse h (uri == NODE_COMMAND) behind j)]
    exact routeCommand_eq hj
  · rw [withRoute_mem h]
    exact List.take_left

/-! ## What a wildcard command leaves alone -/

theorem accepts_iff (hok : IdsOk ts) {j : Str} :
    Accepts httpd ts j ↔ j ≠ [] ∧ j.length < httpd.routeSize ∧
      ∃ i a, ts.nodes.first (hasRoute j) = some i ∧ ts.nodes.used i = some a ∧ a.mess.remove = false := by
  refine and_congr_right fun _ => and_congr_right fun _ => ?_
  cases hf : ts.nodes.first (hasRoute j) with
  | none =>
    rw [readNode_none rfl hf]
    constructor
    · rintro ⟨i, hi, -⟩
      cases hi
    · rintro ⟨i, a, hi, -⟩
      cases hi
  | some i =>
    obtain ⟨a, ha, -, -⟩ := first_eq_some hf
    rw [readNode_some hok.nodes rfl hf]
    constructor
    · rintro ⟨i', hi, hremove⟩
      cases hi
      rw [peek_of_used ha] at hremove
      exact ⟨i, a, rfl, ha, hremove⟩
    · rintro ⟨i', a', hi, ha', hremove⟩
      cases hi
      refine ⟨i, rfl, ?_⟩
      rw [peek_of_used ha']
      exact hremove

theorem wildcardCommand_eq (hok : IdsOk ts) {j : Str} (hj : 0 ∉ j) (hacc : Accepts httpd ts j) :
    ∃ i a, ts.nodes.first (hasRoute j) = some i ∧ ts.nodes.used i = some a ∧
      wildcardCommand httpd now cmd ts j = processNodeCmd now cmd.status (incVersionNode ts) i := by
  obtain ⟨hne, hlen, i, a, hf, ha, hremove⟩ := (accepts_iff hok).1 hacc
  have hparse := parseApp_route httpd (NODE_COMMAND == NODE_COMMAND) hj []
  rw [if_neg (Nat.not_le.2 hlen), if_neg hne, if_pos (by decide)] at hparse
  refine ⟨i, a, hf, ha, ?_⟩
  unfold wildcardCommand processAppCmd
  simp only [hparse]
  rw [readNode_some hok.nodes rfl hf]
  simp only [peek_of_used ha, hremove, Bool.false_eq_true, if_false]
  rw [if_pos (by decide)]

theorem nodeCmdHosts_size (node : Int) (ids : List Int) :
    (nodeCmdHosts now status node ts ids).hosts.size = ts.hosts.size := by
  induction ids generalizing ts with
  | nil => rfl
  | cons id ids ih =>
    unfold nodeCmdHosts
    split
    · simp only
      split
      · exact ih
      · rw [ih]
        show (if status = .remove then removeHost ts.hosts _ else ts.hosts).size = _
        split
        · unfold removeHost release
          split
          · exact size_setInuse _ _ _
          · rfl
        · rfl
    · exact ih

/-- What a REMOVE-APP makes of the node's record. -/
def removedAt (now : Int) (a : Nodeinfo) : Nodeinfo := { markRemove a with updatetime := now }

theorem wildcardCommand_nodes (hok : IdsOk ts) {j : Str} (hj : 0 ∉ j) (hacc : Accepts httpd ts j) :
    (wildcardCommand httpd now cmd ts j).hosts.size = ts.hosts.size ∧
      ∃ i a, ts.nodes.first (hasRoute j) = some i ∧ ts.nodes.used i = some a ∧
        (wildcardCommand httpd now cmd ts j).nodes =
          if cmd = .removeApp ∧ ts.hosts.size ≠ 0 then ts.nodes.poke i (removedAt now a)
          else ts.nodes := by
  obtain ⟨i, a, hf, ha, heq⟩ := @wildcardCommand_eq httpd now ts cmd hok j hj hacc
  have hra : a.mess.jvmRoute = j := by
    obtain ⟨a', ha', hr, -⟩ := first_eq_some hf
    cases ha.symm.trans ha'
    exact hasRoute_iff.1 hr
  rw [heq]
  unfold processNodeCmd
  by_cases hsize : (incVersionNode ts).hosts.size = 0
  · rw [if_pos hsize]
    refine ⟨rfl, i, a, hf, ha, ?_⟩
    rw [if_neg fun h => h.2 hsize]
    rfl
  rw [if_neg hsize]
  simp only
  have hcmd : cmd.status = .remove ↔ cmd = .removeApp := by cases cmd <;> decide
  by_cases hremove : cmd = .removeApp
  · rw [if_pos (hcmd.2 hremove)]
    refine ⟨nodeCmdHosts_size _ _, i, a, hf, ha, ?_⟩
    rw [if_pos ⟨hremove, hsize⟩, nodeCmdHosts_nodes]
    exact removeMark_eq (by rw [hra]; exact hf) ha
  · rw [if_neg (mt hcmd.1 hremove)]
    refine ⟨nodeCmdHosts_size _ _, i, a, hf, ha, ?_⟩
    rw [if_neg fun h => hremove h.1, nodeCmdHosts_nodes]
    rfl

/-- The nodes have the same JVMRoutes and domains. -/
structure SameNames (m m' : Table Nodeinfo) : Prop where
  size : m'.size = m.size
  jvmRoute : ∀ i, (m'.peek i).mess.jvmRoute = (m.peek i).mess.jvmRoute
  domain : ∀ i, (m'.peek i).mess.domain = (m.peek i).mess.domain

theorem SameNames.refl (m : Table Nodeinfo) : SameNames m m := ⟨rfl, fun _ => rfl, fun _ => rfl⟩

theorem sameNames_poke {m : Table Nodeinfo} {i : Nat} {a n : Nodeinfo} (ha : m.used i = some a)
    (hroute : n.mess.jvmRoute = a.mess.jvmRoute) (hdomain : n.mess.domain = a.mess.domain) :
    SameNames m (m.poke i n) := by
  have hpeek (k : Nat) : (m.poke i n).peek k = m.peek k ∨ k = i ∧ (m.poke i n).peek k = n := by
    by_cases hk : i = k
    · subst hk
      exact Or.inr ⟨rfl, peek_poke_self n (used_lt ha)⟩
    · exact Or.inl (peek_poke_ne n hk)
  refine ⟨size_poke _ _ _, fun k => ?_, fun k => ?_⟩
  · rcases hpeek k with hk | ⟨rfl, hk⟩
    · rw [hk]
    · rw [hk, peek_of_used ha, hroute]
  · rcases hpeek k with hk | ⟨rfl, hk⟩
    · rw [hk]
    · rw [hk, peek_of_used ha, hdomain]

theorem wildcardCommand_sameNames (hok : IdsOk ts) {j : Str} (hj : 0 ∉ j) :
    SameNames ts.nodes (wildcardCommand httpd now cmd ts j).nodes := by
  by_cases hacc : Accepts httpd ts j
  · obtain ⟨-, i, a, -, ha, hnodes⟩ := @wildcardCommand_nodes httpd now ts cmd hok j hj hacc
    rw [hnodes]
    split
    · exact sameNames_poke ha rfl rfl
    · exact SameNames.refl _
  · rw [((@wildcardCommand_cases httpd now ts cmd j hj).resolve_left fun h => hacc h.1).2]
    exact SameNames.refl _

theorem wildcardCommand_idsOk (hok : IdsOk ts) (j : Str) : IdsOk (wildcardCommand httpd now cmd ts j) := by
  have hedits : Edits False ts (wildcardCommand httpd now cmd ts j) :=
    processAppCmd_edits httpd now NODE_COMMAND _ cmd.status hok False.elim
  exact hedits.idsOk hok

/-- Wildcard commands are counted, and one changes whether it is accepted for no other
JVMRoute than its own. -/
theorem wildcardCommand_batch (n : Nat) :
    Batch.Commands (wildcardCommand httpd now cmd) (Accepts httpd) (·.version) (fun ts => IdsOk ts ∧ ts.hosts.size = n)
      (0 ∉ ·) (¬ (cmd = .removeApp ∧ n ≠ 0)) where
  inv ts j hinv hj := by
    refine ⟨wildcardCommand_idsOk hinv.1 j, ?_⟩
    rcases @wildcardCommand_cases httpd now ts cmd j hj with ⟨hacc, -⟩ | ⟨-, hsame⟩
    · exact (wildcardCommand_nodes hinv.1 hj hacc).1.trans hinv.2
    · rw [hsame]
      exact hinv.2
  idle ts j hj hacc := ((wildcardCommand_cases hj).resolve_left fun h => hacc h.1).2
  counts ts j hj hacc := ((wildcardCommand_cases hj).resolve_right fun h => h.1 hacc).2
  other ts j k hinv hj hne := by
    obtain ⟨hok, -⟩ := hinv
    by_cases hacc : Accepts httpd ts j
    swap
    · rw [((@wildcardCommand_cases httpd now ts cmd j hj).resolve_left fun h => hacc h.1).2]
    obtain ⟨-, i, a, hf, ha, hnodes⟩ := @wildcardCommand_nodes httpd now ts cmd hok j hj hacc
    rw [accepts_iff (wildcardCommand_idsOk hok j), accepts_iff hok, hnodes]
    split
    swap
    · rfl
    have hfirst : (ts.nodes.poke i (removedAt now a)).first (hasRoute k) =
        ts.nodes.first (hasRoute k) := first_poke ha rfl
    have hother (i' : Nat) (hi' : ts.nodes.first (hasRoute k) = some i') : i ≠ i' := by
      rintro rfl
      obtain ⟨b, hb, hbj, -⟩ := first_eq_some hf
      obtain ⟨b', hb', hbk, -⟩ := first_eq_some hi'
      cases hb.symm.trans hb'
      exact hne ((hasRoute_iff.1 hbk).symm.trans (hasRoute_iff.1 hbj))
    rw [hfirst]
    refine and_congr_right fun _ => and_congr_right fun _ => exists_congr fun i' => exists_congr fun b => ?_
    refine and_congr_right fun hi' => and_congr_left fun _ => ?_
    rw [used_poke_ne _ (hother i' hi')]
  self ts j hinv hj := by
    obtain ⟨hok, rfl⟩ := hinv
    by_cases hacc : Accepts httpd ts j
    swap
    · rw [((@wildcardCommand_cases httpd now ts cmd j hj).resolve_left fun h => hacc h.1).2]
      exact iff_of_false hacc fun h => hacc h.1
    obtain ⟨-, i, a, hf, ha, hnodes⟩ := @wildcardCommand_nodes httpd now ts cmd hok j hj hacc
    rw [accepts_iff (wildcardCommand_idsOk hok j), hnodes]
    split
    · rename_i hremove
      refine iff_of_false ?_ fun h => h.2 hremove
      rintro ⟨-, -, i', b, hi', hb, hb'⟩
      rw [first_poke (b := removedAt now a) ha rfl, hf] at hi'
      cases hi'
      rw [used_poke_self _ ha] at hb
      cases hb
      cases hb'
    · rename_i hremove
      exact iff_of_true ((accepts_iff hok).1 hacc) ⟨hacc, hremove⟩

/-! ## The walk -/

/-- The JVMRoutes of the nodes of a domain among those with these ids. -/
def routesOf (m : Table Nodeinfo) (d : Str) (ids : List Int) : List Str :=
  ids.filterMap fun id =>
    match getNode m id with
    | none => none
    | some i => if (m.peek i).mess.domain = d then some (m.peek i).mess.jvmRoute else none

theorem SameNames.routesOf {m m' : Table Nodeinfo} (h : SameNames m m') (d : Str) (ids : List Int) :
    routesOf m' d ids = ModCluster.routesOf m d ids := by
  have hget (id : Int) : getNode m' id = getNode m id := by
    unfold getNode dptr
    rw [h.size]
  unfold ModCluster.routesOf
  simp only [hget, h.domain, h.jvmRoute]

theorem select_sameNames (p : Str → Bool) (hok : IdsOk ts) {j : Str} (hj : 0 ∉ j) :
    SameNames ts.nodes (Batch.select (wildcardCommand httpd now cmd) p ts j).nodes ∧
      IdsOk (Batch.select (wildcardCommand httpd now cmd) p ts j) := by
  unfold Batch.select
  split
  · exact ⟨wildcardCommand_sameNames hok hj, wildcardCommand_idsOk hok j⟩
  · exact ⟨SameNames.refl _, hok⟩

/-- The page's walk is the batch of the commands for the nodes of the domain, which are
carried out when the uri of the page makes them wildcard. -/
theorem processDomain_tables {extra : List (Str × Str)} (h : ∀ p ∈ extra, 0 ∉ p.1 ∧ isOtherKey p.1 = true) (d : Str)
    (ids : List Int) {w : Walk} (hmem : w.mem = (tokenArgv (pairTokens extra) behind).mem) (hok : IdsOk w.tables)
    (hroutes : ∀ j ∈ routesOf w.tables.nodes d ids, 0 ∉ j) :
    (processDomain httpd now uri (some cmd.status) (tokenArgv (pairTokens extra) behind).ptr (some d) ids w).tables =
      (routesOf w.tables.nodes d ids).foldl
        (Batch.select (wildcardCommand httpd now cmd) fun _ => uri == NODE_COMMAND) w.tables := by
  induction ids generalizing w with
  | nil => rfl
  | cons id ids ih =>
    unfold processDomain
    cases hget : getNode w.tables.nodes id with
    | none =>
      have hskip : routesOf w.tables.nodes d (id :: ids) = routesOf w.tables.nodes d ids := by
        unfold routesOf
        rw [List.filterMap_cons]
        simp only [hget]
      rw [hskip] at hroutes ⊢
      exact ih hmem hok hroutes
    | some i =>
      simp only
      by_cases hd : (w.tables.nodes.peek i).mess.domain = d
      swap
      · have hskip : routesOf w.tables.nodes d (id :: ids) = routesOf w.tables.nodes d ids := by
          unfold routesOf
          rw [List.filterMap_cons]
          simp only [hget, if_neg hd]
        rw [if_pos hd]
        rw [hskip] at hroutes ⊢
        exact ih hmem hok hroutes
      · have htake : routesOf w.tables.nodes d (id :: ids) =
            (w.tables.nodes.peek i).mess.jvmRoute :: routesOf w.tables.nodes d ids := by
          unfold routesOf
          rw [List.filterMap_cons]
          simp only [hget, if_pos hd]
        rw [if_neg (not_not_intro hd)]
        rw [htake] at hroutes ⊢
        obtain ⟨hj, hrest⟩ := List.forall_mem_cons.1 hroutes
        obtain ⟨htables, hmem'⟩ := @domainNode_eq httpd now uri behind cmd extra h w hmem _ hj
        obtain ⟨hsame, hok'⟩ := @select_sameNames httpd now w.tables cmd (fun _ => uri == NODE_COMMAND) hok _ hj
        have hselect : (domainNode httpd now uri (some cmd.status) (tokenArgv (pairTokens extra) behind).ptr w
            (w.tables.nodes.peek i).mess.jvmRoute).tables =
              Batch.select (wildcardCommand httpd now cmd) (fun _ => uri == NODE_COMMAND) w.tables
                (w.tables.nodes.peek i).mess.jvmRoute := by
          rw [htables]
          unfold Batch.select
          simp only [beq_iff_eq]
        rw [List.foldl_cons, ← hselect, ← hsame.routesOf d ids, ← hselect]
        refine ih hmem' (by rw [hselect]; exact hok') ?_
        rw [hselect, hsame.routesOf d ids]
        exact hrest

theorem domainRoutes_eq (ts : Tables) (d : Str) : domainRoutes ts d = routesOf ts.nodes d (getIdsUsedNode ts.nodes) := rfl

theorem domainRoutes_nil (h : ts.nodes.size = 0) (d : Str) : domainRoutes ts d = [] := by
  have hslots : ts.nodes.slots = [] := List.length_eq_zero_iff.1 h
  rw [domainRoutes_eq, getIdsUsedNode_eq, records, hslots]
  rfl

theorem pageRequest_domain (hallow : conf.allowCmd = true) (hok : IdsOk ts) {d : Str} (hd : Plain d)
    (hroutes : ∀ j ∈ domainRoutes ts d, 0 ∉ j) :
    pageRequest httpd u conf now ts uri (joinPairs (pageParams conf cmd (ascii "DOMAIN") ++ [(ascii "Domain", d)]))
        behind =
      (domainRoutes ts d).foldl (Batch.select (wildcardCommand httpd now cmd) fun _ => uri == NODE_COMMAND) ts := by
  have hpairs : PlainPairs [(ascii "Domain", d)] := List.forall_mem_singleton.2 ⟨show Plain (ascii "Domain") by decide, hd⟩
  have hkeys : FieldKeys [(ascii "Domain", d)] :=
    show List.Pairwise _ [ascii "nonce", ascii "Cmd", ascii "Range", ascii "Domain"] by decide
  have hvalue : paramValue (pageParams conf cmd (ascii "DOMAIN") ++ [(ascii "Domain", d)]) (ascii "Domain") = some d := by
    unfold pageParams
    cases conf.nonce <;> rfl
  have hother : ∀ p ∈ pageParams conf cmd (ascii "DOMAIN") ++ [(ascii "Domain", d)], 0 ∉ p.1 ∧ isOtherKey p.1 = true := by
    intro p hp
    rcases List.mem_append.1 hp with hp | hp
    · exact pageParams_other _ p hp
    · rw [List.mem_singleton.1 hp]
      exact show 0 ∉ ascii "Domain" ∧ isOtherKey (ascii "Domain") = true by decide
  rw [pageRequest_eq hallow (by decide) hpairs hkeys, show rangeOf (ascii "DOMAIN") = .domain by decide]
  simp only
  by_cases hsize : ts.nodes.size = 0
  · rw [if_pos hsize, domainRoutes_nil hsize]
    rfl
  · rw [if_neg hsize, hvalue]
    exact processDomain_tables hother d _ rfl hok hroutes

theorem mcmpRequests_domain {routes : List Str} (hroutes : ∀ j ∈ routes, Plain j) (ts : Tables) :
    routes.foldl (fun ts j => mcmpRequest httpd now (ascii "/*") cmd ts (joinPairs (routeField j))) ts =
      routes.foldl (Batch.select (wildcardCommand httpd now cmd) fun j => decide (Clean j)) ts := by
  refine List.foldl_ext _ _ _ fun ts j hj => ?_
  rw [mcmpRequest_route (hroutes j hj)]
  unfold Batch.select
  simp only [decide_eq_true_eq]

theorem domainAgrees_iff (hallow : conf.allowCmd = true) (hok : IdsOk ts) {d : Str} (hd : Plain d)
    (hroutes : ∀ j ∈ domainRoutes ts d, Plain j) :
    DomainAgrees httpd u conf now ts uri behind cmd d ↔
      ∀ j ∈ domainRoutes ts d, ¬ Accepts httpd ts j ∨ (uri = NODE_COMMAND ↔ Clean j) := by
  have hnuls : ∀ j ∈ domainRoutes ts d, 0 ∉ j := fun j hj => (hroutes j hj).nul
  have hbatch := @wildcardCommand_batch httpd now cmd ts.hosts.size
  unfold DomainAgrees
  rw [pageRequest_domain hallow hok hd hnuls, mcmpRequests_domain hroutes]
  by_cases huri : uri = NODE_COMMAND
  · -- The page carries out every command, MCMP the clean ones.
    have hiff := Batch.foldl_select_eq_iff hbatch (p := fun j => decide (Clean j)) (q := fun _ => uri == NODE_COMMAND)
      (fun _ _ => beq_iff_eq.2 huri) _ hnuls ⟨hok, rfl⟩
    rw [eq_comm, hiff]
    refine forall₂_congr fun j _ => ?_
    rw [beq_iff_eq.2 huri, decide_eq_true_eq, imp_iff_not_or, iff_true_left huri]
  · have hbeq : (uri == NODE_COMMAND) = false := beq_NODE_COMMAND huri
    have hiff := Batch.foldl_select_eq_iff hbatch (p := fun _ => uri == NODE_COMMAND) (q := fun j => decide (Clean j))
      (fun _ h => absurd (hbeq.symm.trans h) Bool.false_ne_true) _ hnuls ⟨hok, rfl⟩
    rw [hiff]
    refine forall₂_congr fun j _ => ?_
    rw [hbeq, eq_comm, decide_eq_false_iff_not, imp_iff_not_or, iff_false_left huri]

/-! ## All ranges -/

/-- The command that the page passes on is the one MCMP would carry out, exactly when the
uri of the page says what the range of the query should: that the command is wildcard for
a node and for a domain, and that it is not for contexts. MCMP refuses characters the page
lets through, and a list that goes on behind its NUL. -/
theorem pageCommands_agree_iff (httpd : Httpd) (u : Unescaper) (conf : PageConf) (hallow : conf.allowCmd = true)
    (now : Int) (ts : Tables) (hok : IdsOk ts) (uri : Str) (behind : Mem) (cmd : AppCommand) :
    (∀ j, Plain j → (NodeAgrees httpd u conf now ts uri behind cmd j ↔
      ¬ Accepts httpd ts j ∨ (uri = NODE_COMMAND ↔ Clean j))) ∧
    (∀ d, Plain d → (∀ j ∈ domainRoutes ts d, Plain j) → (DomainAgrees httpd u conf now ts uri behind cmd d ↔
      ∀ j ∈ domainRoutes ts d, ¬ Accepts httpd ts j ∨ (uri = NODE_COMMAND ↔ Clean j))) ∧
    (∀ j a c, Plain j → Plain a → Plain c →
      (uri ≠ NODE_COMMAND → (ContextAgrees httpd u conf now ts uri behind cmd j a c ↔
        ¬ Accepts httpd ts j ∨ (ListsOk a c behind → (Clean j ∧ Clean a ∧ Clean c) ∧ ListsOk a c []))) ∧
      (uri = NODE_COMMAND → ¬ Accepts httpd ts j → ContextAgrees httpd u conf now ts uri behind cmd j a c)) := by
  refine ⟨fun j hj => nodeAgrees_iff hallow hj, fun d hd hroutes => domainAgrees_iff hallow hok hd hroutes,
    fun j a c hj ha hc => ⟨fun huri => contextAgrees_iff hallow huri hj ha hc, fun _ hacc => ?_⟩⟩
  exact contextAgrees_of_not_accepts hallow hj ha hc hacc

end Domains

/-! ### A page of one node -/

/-- What `ap_unescape_url` does with a text that has nothing to unescape. -/
def plainUnescaper : Unescaper where
  run s := (s, OK)
  plain _ _ := rfl

def openPage : PageConf where
  nonce := false
  balancerNonce := []
  plain := by decide
  allowCmd := true

/-- The page stops a context as MCMP does. -/
theorem stopContext_agrees :
    ContextAgrees plainHttpd plainUnescaper openPage 0 oneNode (ascii "/mod_cluster_manager") [] .stopApp (ascii "n1")
      (ascii "host1") (ascii "/app") := by
  have hlists : ListsOk (ascii "host1") (ascii "/app") [] := show _ ∧ _ by decide +kernel
  have hagree := (pageCommands_agree_iff plainHttpd plainUnescaper openPage rfl 0 oneNode oneNode_reachable.loose.idsOk
    (ascii "/mod_cluster_manager") [] .stopApp).2.2 (ascii "n1") (ascii "host1") (ascii "/app") (by decide) (by decide)
      (by decide)
  exact (hagree.1 (by decide)).2 (Or.inr fun _ => ⟨by decide, hlists⟩)

/-- The page offers to stop the contexts of a node, and stops none. -/
theorem stopNode_not_agrees :
    ¬ NodeAgrees plainHttpd plainUnescaper openPage 0 oneNode (ascii "/mod_cluster_manager") [] .stopApp (ascii "n1") := by
  intro h
  have hversion := congrArg Tables.version h
  revert hversion
  decide +kernel

end ModCluster
