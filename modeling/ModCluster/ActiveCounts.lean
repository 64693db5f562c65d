import ModCluster.Traffic
import ModCluster.ElectionSpec
import ModCluster.ConfigSpec

/-!
# Active requests of the workers

What each function does to the counts `count_active` of the workers, and that they
count the requests that are dispatched in all runs whose steps are steady.
-/

open CString Slotmem Slotmem.Table

namespace ModCluster

/-! ## The counts of a list of workers -/

def activeIn (ws : List Worker) (j : Nat) : Int :=
  match ws[j]? with
  | some w => w.active
  | none => 0

def SameActive (sv sv' : Server) : Prop := ∀ b j, sv'.active b j = sv.active b j

section Counts

variable {sv sv' : Server} {ws : List Worker} {w w' : Worker} {b j k : Nat}

theorem Server.active_eq (sv : Server) (b j : Nat) :
    sv.active b j = match sv.balancers[b]? with | some bal => activeIn bal.workers j | none => 0 := by
  unfold Server.active Server.worker?
  cases sv.balancers[b]? <;> rfl

theorem Server.active_of (h : sv.worker? b j = some w) : sv.active b j = w.active := by
  rw [Server.active, h]

theorem activeIn_set (hw : ws[k]? = some w) (hactive : w'.active = w.active) :
    activeIn (ws.set k w') j = activeIn ws j := by
  unfold activeIn
  rw [List.getElem?_set']
  by_cases hkj : k = j
  · subst hkj
    rw [if_pos rfl, hw]
    exact hactive
  · rw [if_neg hkj]

theorem activeIn_append (hactive : w.active = 0) : activeIn (ws ++ [w]) j = activeIn ws j := by
  unfold activeIn
  rw [List.getElem?_append]
  by_cases hj : j < ws.length
  · rw [if_pos hj]
  · rw [if_neg hj, List.getElem?_eq_none (Nat.le_of_not_lt hj)]
    cases hlast : [w][j - ws.length]? with
    | none => rfl
    | some w' =>
      have hmem := List.mem_of_getElem? hlast
      rw [List.mem_singleton] at hmem
      rw [hmem]
      exact hactive

theorem SameActive.refl : SameActive sv sv := fun _ _ => rfl

theorem SameActive.trans {sv'' : Server} (h : SameActive sv sv') (h' : SameActive sv' sv'') : SameActive sv sv'' :=
  fun b j => (h' b j).trans (h b j)

theorem sameActive_setBalancer {bal bal' : ProxyBalancer} (hbal : sv.balancers[k]? = some bal)
    (hsame : ∀ j, activeIn bal'.workers j = activeIn bal.workers j) : SameActive sv ⟨sv.balancers.set k bal'⟩ := by
  intro b j
  rw [Server.active_eq, Server.active_eq]
  simp only
  rw [List.getElem?_set']
  by_cases hkb : k = b
  · subst hkb
    rw [if_pos rfl, hbal]
    exact hsame j
  · rw [if_neg hkb]

theorem sameActive_addBalancer {bal : ProxyBalancer} (hzero : ∀ j, activeIn bal.workers j = 0) :
    SameActive sv ⟨sv.balancers ++ [bal]⟩ := by
  intro b j
  rw [Server.active_eq, Server.active_eq]
  simp only
  rw [List.getElem?_append]
  by_cases hb : b < sv.balancers.length
  · rw [if_pos hb]
  · rw [if_neg hb, List.getElem?_eq_none (Nat.le_of_not_lt hb)]
    cases hlast : [bal][b - sv.balancers.length]? with
    | none => rfl
    | some bal' =>
      have hmem := List.mem_of_getElem? hlast
      rw [List.mem_singleton] at hmem
      rw [hmem]
      exact hzero j

theorem active_setWorker (hw : sv.worker? b j = some w) (b' j' : Nat) :
    (sv.setWorker b j w').active b' j' = if b = b' ∧ j = j' then w'.active else sv.active b' j' := by
  unfold Server.active
  rw [Server.worker?_setWorker]
  by_cases h : b = b' ∧ j = j'
  · obtain ⟨rfl, rfl⟩ := h
    rw [if_pos ⟨rfl, rfl⟩, if_pos ⟨rfl, rfl⟩, hw]
    rfl
  · rw [if_neg h, if_neg h]

theorem sameActive_setWorker (hw : sv.worker? b j = some w) (hactive : w'.active = w.active) :
    SameActive sv (sv.setWorker b j w') := by
  intro b' j'
  rw [active_setWorker hw]
  split
  · rename_i h
    obtain ⟨rfl, rfl⟩ := h
    rw [hactive, Server.active_of hw]
  · rfl

end Counts

/-! ## Creating workers -/

section Create

variable {httpd : Httpd} {now : Int} {ts : Tables} {b : ProxyBalancer} {m : Nodemess} {i j : Nat}

theorem createWorkerReuse_active {k : Nat} {w : Worker} (hw : b.workers[k]? = some w) :
    activeIn (createWorkerReuse httpd now ts b k w m i).2.1.workers j = activeIn b.workers j := by
  unfold createWorkerReuse
  split
  · rfl
  rename_i helper hhelper
  have hset : activeIn (b.setWorker k { w with
      s := .slot i
      context := some { helper with isinnodes := true, index := m.id } }).workers j = activeIn b.workers j := by
    refine activeIn_set hw ?_
    unfold Worker.active
    rw [hhelper]
  split
  · rfl
  split
  · split <;> rfl
  · simp only
    split
    · exact hset
    · exact hset

theorem createWorkerNew_active {shared : WorkerShared} :
    activeIn (createWorkerNew httpd now ts b shared m i).2.1.workers j = activeIn b.workers j := by
  have hadd : activeIn (b.addWorker {
      s := .slot i
      priv := shared
      context := some { countActive := 0, index := m.id, isinnodes := true } }).workers j = activeIn b.workers j := by
    refine activeIn_append ?_
    rfl
  unfold createWorkerNew
  simp only
  split
  · split
    · exact hadd
    · exact hadd
  · split
    · exact hadd
    · exact hadd

theorem createWorker_active :
    activeIn (createWorker httpd now ts b m i).2.1.workers j = activeIn b.workers j := by
  unfold createWorker
  split
  · rfl
  split
  · rename_i k w hfound
    rw [Option.bind_eq_some_iff] at hfound
    obtain ⟨k', -, hk'⟩ := hfound
    rw [Option.map_eq_some_iff] at hk'
    obtain ⟨w', hw', heq⟩ := hk'
    cases heq
    exact createWorkerReuse_active hw'
  · split
    · rfl
    · exact createWorkerNew_active

theorem addBalancersWorkersForServer_active {creatBal : CreatBal} {main : Bool} {sv : Server} :
    SameActive sv (addBalancersWorkersForServer httpd creatBal main now ts sv m i).2.1 := by
  unfold addBalancersWorkersForServer
  split
  · rename_i k b hfound
    rw [Option.bind_eq_some_iff] at hfound
    obtain ⟨k', -, hk'⟩ := hfound
    rw [Option.map_eq_some_iff] at hk'
    obtain ⟨b', hb', heq⟩ := hk'
    rw [Prod.mk.injEq] at heq
    obtain ⟨rfl, rfl⟩ := heq
    refine sameActive_setBalancer hb' fun j => ?_
    rw [createWorker_active, reuseBalancer_workers]
  · split
    · exact SameActive.refl
    · refine sameActive_addBalancer fun j => ?_
      rw [createWorker_active, addBalancerNode_workers]
      rfl

end Create

/-! ## Looking up and taking away -/

section Remove

variable {httpd : Httpd} {now : Int} {ts ts' : Tables} {sv sv' : Server} {i : Nat}

/-- What a worker points to, and its helper. -/
def Worker.seat (w : Worker) : Loc × Option Helper := (w.s, w.context)

theorem Worker.write_seat (w : Worker) (f : WorkerShared → WorkerShared) : (w.write ts f).2.seat = w.seat := by
  unfold Worker.write
  split <;> rfl

theorem Worker.active_of_seat {w w' : Worker} (h : w'.seat = w.seat) : w'.active = w.active := by
  have hcontext : w'.context = w.context := congrArg Prod.snd h
  unfold Worker.active
  rw [hcontext]

theorem lookupWorkers_seat (id : Int) (i : Nat) (ws : List Worker) (ts : Tables) :
    (lookupWorkers id i ts ws).2.1.map Worker.seat = ws.map Worker.seat := by
  induction ws generalizing ts with
  | nil => rfl
  | cons w rest ih =>
    unfold lookupWorkers
    split
    · rfl
    split
    · rfl
    simp only
    split
    · rw [List.map_cons, List.map_cons, ih]
      exact congrArg (· :: _) (Worker.write_seat w _)
    · rw [List.map_cons, List.map_cons, ih]

def Server.seats (sv : Server) : List (List (Loc × Option Helper)) :=
  sv.balancers.map fun b => b.workers.map Worker.seat

theorem getWorkerFromIdStat_seats (ts : Tables) (sv : Server) (id : Int) (i : Nat) :
    (getWorkerFromIdStat ts sv id i).2.1.seats = sv.seats := by
  unfold getWorkerFromIdStat Server.seats
  simp only
  generalize sv.balancers = bs
  induction bs generalizing ts with
  | nil => rfl
  | cons b rest ih =>
    unfold lookupBalancers
    simp only
    split
    · rw [List.map_cons, List.map_cons, ih, lookupWorkers_seat]
    · rw [List.map_cons, List.map_cons, lookupWorkers_seat]

theorem worker?_of_seats (h : sv'.seats = sv.seats) (b j : Nat) :
    (sv'.worker? b j).map Worker.seat = (sv.worker? b j).map Worker.seat := by
  have hseats (s : Server) : (s.worker? b j).map Worker.seat = (s.seats[b]?).bind (·[j]?) := by
    unfold Server.worker? Server.seats
    rw [List.getElem?_map]
    cases s.balancers[b]? with
    | none => rfl
    | some bal => exact (List.getElem?_map ..).symm
  rw [hseats, hseats, h]

theorem sameActive_of_seats (h : sv'.seats = sv.seats) : SameActive sv sv' := by
  intro b j
  have hseat := worker?_of_seats h b j
  unfold Server.active
  cases hw' : sv'.worker? b j with
  | none =>
    rw [hw'] at hseat
    rw [Option.map_eq_none_iff.1 hseat.symm]
  | some w' =>
    rw [hw', Option.map_some, eq_comm, Option.map_eq_some_iff] at hseat
    obtain ⟨w, hw, hsame⟩ := hseat
    rw [hw]
    exact Worker.active_of_seat hsame.symm

theorem removeWorkersNode_active (h : removeWorkersNode httpd now ts sv i = some (ts', sv')) :
    SameActive sv sv' ∧
      ∀ b j w w', sv.worker? b j = some w → sv'.worker? b j = some w' → w'.s ≠ w.s → w.active = 0 := by
  have hseats := getWorkerFromIdStat_seats ts sv (ts.nodes.peek i).mess.id i
  unfold removeWorkersNode at h
  simp only at h
  generalize getWorkerFromIdStat ts sv (ts.nodes.peek i).mess.id i = q at h hseats
  have hstay {b j : Nat} {w w' : Worker} (hw : sv.worker? b j = some w) (hw' : q.2.1.worker? b j = some w') :
      w'.seat = w.seat := by
    have hseat := worker?_of_seats hseats b j
    rw [hw, hw'] at hseat
    exact Option.some.inj hseat
  have hkeep : SameActive sv q.2.1 ∧
      ∀ b j w w', sv.worker? b j = some w → q.2.1.worker? b j = some w' → w'.s ≠ w.s → w.active = 0 :=
    ⟨sameActive_of_seats hseats, fun b j w w' hw hw' hne => absurd (congrArg Prod.fst (hstay hw hw')) hne⟩
  split at h
  · cases h
    exact hkeep
  · cases h
    exact hkeep
  · cases h
  split at h
  · cases h
  rename_i b j _ _ w hw
  split at h
  · cases h
  rename_i helper hhelper
  split at h
  · cases h
    exact hkeep
  rename_i hactive
  split at h
  · cases h
  cases h
  have hzero : w.active = 0 := by
    unfold Worker.active
    rw [hhelper]
    exact Decidable.not_not.1 hactive
  constructor
  · refine hkeep.1.trans (sameActive_setWorker hw ?_)
    unfold Worker.active
    rw [hhelper]
    rfl
  · intro b' j' w₁ w₂ hw₁ hw₂ hne
    rw [Server.worker?_setWorker] at hw₂
    split at hw₂
    · rename_i hat
      obtain ⟨rfl, rfl⟩ := hat
      rw [← Worker.active_of_seat (hstay hw₁ hw)]
      exact hzero
    · exact hkeep.2 b' j' w₁ w₂ hw₁ hw₂ hne

end Remove

/-! ## Checking -/

section Check

variable {httpd : Httpd} {ts : Tables}

theorem checkWorkerArea_active {w w' : Worker} (h : checkWorkerArea httpd ts w = some w') :
    w'.active = w.active ∨ isWorkerChanged ts w = true ∧ w'.active = 0 := by
  unfold checkWorkerArea at h
  split at h
  · cases h
  split at h
  · rename_i hchanged
    split at h
    · cases h
    · cases h
      exact Or.inr ⟨hchanged, rfl⟩
  · cases h
    exact Or.inl rfl

theorem checkWorkersOf_active {ws ws' : List Worker} (h : checkWorkersOf httpd ts ws = some ws') (j : Nat) :
    activeIn ws' j = activeIn ws j ∨
      ∃ w, ws[j]? = some w ∧ isWorkerChanged ts w = true ∧ activeIn ws' j = 0 := by
  induction ws generalizing ws' j with
  | nil =>
    cases h
    exact Or.inl rfl
  | cons w rest ih =>
    unfold checkWorkersOf at h
    split at h
    swap
    · cases h
    rename_i w' rest' hw hrest
    cases h
    cases j with
    | zero =>
      rcases checkWorkerArea_active hw with hsame | ⟨hchanged, hzero⟩
      · exact Or.inl hsame
      · exact Or.inr ⟨w, rfl, hchanged, hzero⟩
    | succ j => exact ih hrest j

theorem checkWorkers_active {sv sv' : Server} (h : checkWorkers httpd ts sv = some sv') (b j : Nat) :
    sv'.active b j = sv.active b j ∨
      ∃ w, sv.worker? b j = some w ∧ isWorkerChanged ts w = true ∧ sv'.active b j = 0 := by
  unfold checkWorkers at h
  rw [Option.map_eq_some_iff] at h
  obtain ⟨bs, hbs, rfl⟩ := h
  rw [Server.active_eq, Server.active_eq, Server.worker?]
  simp only
  generalize sv.balancers = l at hbs ⊢
  induction l generalizing bs b with
  | nil =>
    cases hbs
    exact Or.inl rfl
  | cons bal rest ih =>
    unfold checkBalancers at hbs
    split at hbs
    swap
    · cases hbs
    rename_i workers rest' hw hrest
    cases hbs
    cases b with
    | zero => exact checkWorkersOf_active hw j
    | succ b => exact ih b rest' hrest

end Check

/-! ## CONFIG -/

section Config

variable {httpd : Httpd} {now : Int} {ts : Tables} {px px' : Proxy} {r : WorkerRef}

def Proxy.active (px : Proxy) (r : WorkerRef) : Int :=
  match px.servers[r.server]? with
  | some sv => sv.active r.balancer r.worker
  | none => 0

theorem Proxy.active_setWorker {w' : Worker} (r' : WorkerRef) (hzero : w'.active = 0) :
    (px.setWorker r w').active r' = px.active r' ∨ r' = r ∧ (px.setWorker r w').active r' = 0 := by
  obtain ⟨k, b, j⟩ := r
  obtain ⟨k', b', j'⟩ := r'
  unfold Proxy.active Proxy.setWorker
  simp only
  by_cases hk : k = k'
  swap
  · rw [List.getElem?_modify_ne _ _ hk]
    exact Or.inl rfl
  subst hk
  rw [List.getElem?_modify_eq]
  cases px.servers[k]? with
  | none => exact Or.inl rfl
  | some sv =>
    have hset : (sv.setWorker b j w').worker? b' j' =
        if b = b' ∧ j = j' then (sv.worker? b' j').map fun _ => w' else sv.worker? b' j' :=
      Server.worker?_setWorker sv w'
    show (sv.setWorker b j w').active b' j' = _ ∨ _ ∧ (sv.setWorker b j w').active b' j' = 0
    unfold Server.active
    by_cases hat : b = b' ∧ j = j'
    · rw [hset, if_pos hat]
      obtain ⟨rfl, rfl⟩ := hat
      refine Or.inr ⟨rfl, ?_⟩
      cases sv.worker? b j with
      | none => rfl
      | some w => exact hzero
    · rw [hset, if_neg hat]
      exact Or.inl rfl

theorem pairWorker_active {ts' : Tables} {plan : Plan} {nodeinfo : Nodeinfo} {id : Int}
    (h : pairWorker now ts (some px) plan nodeinfo id = some (ts', some px')) (r : WorkerRef) :
    px'.active r = px.active r ∨ plan.clean = false ∧ plan.worker = some r ∧ px'.active r = 0 := by
  unfold pairWorker at h
  split at h
  · cases h
    exact Or.inl rfl
  rename_i hclean
  split at h
  swap
  · cases h
  rename_i i px₁ r' hi hpx hr
  cases hpx
  split at h
  swap
  · cases h
  split at h
  swap
  · cases h
  split at h
  swap
  · cases h
  simp only [Option.some.injEq, Prod.mk.injEq] at h
  obtain ⟨-, rfl⟩ := h
  refine (Proxy.active_setWorker r ?_).imp_right fun hat => ?_
  · rfl
  · rw [hr, hat.1]
    exact ⟨Bool.eq_false_iff.2 hclean, rfl, hat.1 ▸ hat.2⟩

theorem checkConfig_pairedAgain {args : ConfigArgs} {plan : Plan} (h : checkConfig httpd ts (some px) args = .go plan)
    (hclean : plan.clean = false) (hworker : plan.worker = some r) : PairedAgain httpd ts px args r := by
  unfold checkConfig at h
  simp only at h
  split at h
  · cases h
  split at h
  · cases h
  split at h
  · cases h
    cases hclean
  rename_i hid
  split at h
  · cases h
    cases hclean
  rename_i hpaired
  refine ⟨?_, hid, hpaired⟩
  unfold checkWorker at h
  simp only at h
  split at h
  · cases h
  generalize (proxyNodeGetid httpd ts (some px) (readNode ts.nodes args.node).2.mess).1 = worker at h ⊢
  unfold reuseWorker at h
  split at h
  swap
  · cases h
  split at h
  swap
  · cases h
  split at h
  · cases h
  · cases h
    exact hworker

theorem processConfig_active {mconf : Mconf} {argv : Argv}
    (h : (processConfig httpd mconf now ts (some px) argv).proxy = some px') (r : WorkerRef) :
    px'.active r = px.active r ∨
      ∃ args, parseConfig httpd mconf argv = .ok args ∧ PairedAgain httpd ts px args r ∧ px'.active r = 0 := by
  have hsame {px₁ : Proxy} (heq : some px = some px₁) : px₁.active r = px.active r := by
    cases heq
    rfl
  unfold processConfig at h
  split at h
  · exact Or.inl (hsame h)
  rename_i args hparse
  split at h
  · exact Or.inl (hsame h)
  · exact Or.inl (hsame h)
  rename_i plan hgo
  have hcommit := commitConfig_committed now ts (some px) args plan
  generalize commitConfig now ts (some px) args plan = res at h hcommit
  cases hcommit with
  | noBalancer hb => exact Or.inl (hsame h)
  | noNode balancers b hb hn => exact Or.inl (hsame h)
  | aborted balancers b nodes nodeinfo id hb hn hp => exact Or.inl (hsame h)
  | stored balancers b nodes nodeinfo id ts' px₁ q hb hn hp hr =>
    simp only at h
    subst h
    refine (pairWorker_active hp r).imp_right fun hpaired => ?_
    obtain ⟨hclean, hworker, hzero⟩ := hpaired
    exact ⟨args, hparse, checkConfig_pairedAgain hgo hclean hworker, hzero⟩

end Config

/-! ## Requests -/

section Requests

variable {httpd : Httpd} {ts : Tables} {sv : Server} {h h' : Handling} {b j : Nat}

theorem World.write_active (w : World) (f : WorkerShared → WorkerShared) :
    SameActive w.server (w.write b j f).server := by
  unfold World.write
  split
  · rename_i worker hworker
    exact sameActive_setWorker hworker (Worker.active_of_seat (Worker.write_seat worker f))
  · exact SameActive.refl

theorem updateHelper_active {f : Helper → Helper} (hh : h.updateHelper b j f = some h') :
    ∃ worker helper, h.world.server.worker? b j = some worker ∧ worker.context = some helper ∧
      ∀ b' j', h'.world.server.active b' j' =
        if b = b' ∧ j = j' then (f helper).countActive else h.world.server.active b' j' := by
  unfold Handling.updateHelper at hh
  split at hh
  · cases hh
  rename_i worker hworker
  split at hh
  · cases hh
  rename_i helper hhelper
  cases hh
  exact ⟨worker, helper, hworker, hhelper, active_setWorker hworker⟩

theorem dispatch_active {r : Request} {url url' : Str} (hrun : dispatch b j url ⟨⟨ts, sv⟩, r⟩ = (h, .ok j, url'))
    (b' j' : Nat) : h.world.server.active b' j' = sv.active b' j' + if b = b' ∧ j = j' then 1 else 0 := by
  unfold dispatch at hrun
  simp only at hrun
  split at hrun
  · cases hrun
  rename_i h₁ hh
  cases hrun
  obtain ⟨worker, helper, hworker, hhelper, hactive⟩ := updateHelper_active hh
  have hwrite : SameActive sv (World.write ⟨ts, sv⟩ b j busyOnce).server := World.write_active _ _
  have hworker' : (World.write ⟨ts, sv⟩ b j busyOnce).server.worker? b j = some worker := hworker
  have hcount : helper.countActive = sv.active b j := by
    rw [← hwrite b j, Server.active_of hworker', Worker.active, hhelper]
  refine (hactive b' j').trans ?_
  by_cases hat : b = b' ∧ j = j'
  · obtain ⟨rfl, rfl⟩ := hat
    rw [if_pos ⟨rfl, rfl⟩, if_pos ⟨rfl, rfl⟩, ← hcount]
    rfl
  · rw [if_neg hat, if_neg hat, Int.add_zero]
    exact hwrite b' j'

/-- One request less, unless there was none. -/
def lessOne (n : Int) : Int := if n > 0 then n - 1 else n

theorem lessOne_active {helper : Helper} {worker : Worker} (hhelper : worker.context = some helper) :
    (if helper.countActive > 0 then helper.count (-1) else helper).countActive = lessOne worker.active := by
  unfold lessOne Worker.active
  rw [hhelper]
  simp only
  split
  · rfl
  · rfl

theorem postRequest_active {r : Request} (hrun : postRequest b j ⟨⟨ts, sv⟩, r⟩ = some h) (b' j' : Nat) :
    h.world.server.active b' j' = if b = b' ∧ j = j' then lessOne (sv.active b j) else sv.active b' j' := by
  obtain ⟨worker, helper, hworker, hhelper, hactive⟩ := updateHelper_active hrun
  have hworker' : sv.worker? b j = some worker := hworker
  rw [hactive, lessOne_active hhelper, Server.active_of hworker']
  rfl

theorem find_worker {w : Worker} (hw : sv.worker? b j = some w)
    (hfirst : ∀ i w', i < j → sv.worker? b i = some w' → httpd.hashfunc w'.priv.name ≠ httpd.hashfunc w.priv.name) :
    ((World.workers ⟨ts, sv⟩ b).find? fun i => match sv.worker? b i with
      | some worker => httpd.hashfunc worker.priv.name == httpd.hashfunc w.priv.name
      | none => false) = some j := by
  have hw' := hw
  unfold Server.worker? at hw'
  rw [Option.bind_eq_some_iff] at hw'
  obtain ⟨bal, hbal, hj⟩ := hw'
  unfold World.workers
  rw [hbal, List.find?_range_eq_some]
  refine ⟨?_, List.mem_range.2 (List.getElem?_eq_some_iff.1 hj).1, fun i hi => ?_⟩
  · rw [hw]
    exact beq_self_eq_true _
  · cases hi' : sv.worker? b i with
    | none => rfl
    | some w' =>
      have hne := hfirst i w' hi hi'
      simpa using hne

theorem releasePrevious_active {f : Flight} {w : Worker} {r : Request}
    (hw : sv.worker? f.ref.balancer f.ref.worker = some w) (hleads : NameLeads httpd ts sv f w)
    (hrun : releasePrevious httpd f.ref.balancer ⟨⟨ts, sv⟩, f.notes ts w r⟩ = some h) (b' j' : Nat) :
    h.world.server.active b' j' = if f.ref.balancer = b' ∧ f.ref.worker = j' then
      lessOne (sv.active f.ref.balancer f.ref.worker) else sv.active b' j' := by
  obtain ⟨hname, hown, hfirst⟩ := hleads
  unfold releasePrevious at hrun
  split at hrun
  · rename_i hnone
    cases hnone
  · rename_i hempty
    exact absurd (Option.some.inj hempty) hname
  rename_i workerName hnotempty hworkerName
  have hsearch : workerName = w.priv.name := by
    rw [← hown]
    exact (Option.some.inj hworkerName).symm
  subst hsearch
  simp only [Handling.setTables] at hrun
  generalize hfind : List.find? _ _ = found at hrun
  have hfound : found = some f.ref.worker := hfind.symm.trans (find_worker hw hfirst)
  subst hfound
  obtain ⟨worker, helper, hworker, hhelper, hactive⟩ := updateHelper_active hrun
  have hworker' : sv.worker? f.ref.balancer f.ref.worker = some worker := hworker
  rw [hactive, lessOne_active hhelper, Server.active_of hworker']

end Requests

/-! ## Runs -/

section Runs

variable {httpd : Httpd} {c : Cluster} {t t' : Traffic}

theorem active_setServer {p k : Nat} {sv sv' : Server} (ts : Tables) (hsv : c.server? p k = some sv) (p' : Nat)
    (r : WorkerRef) : (c.setServer ts p k sv').active p' r =
      if p = p' ∧ k = r.server then sv'.active r.balancer r.worker else c.active p' r := by
  unfold Cluster.server? at hsv
  rw [Option.bind_eq_some_iff] at hsv
  obtain ⟨q, hq, hk⟩ := hsv
  unfold Cluster.active Cluster.setServer Cluster.server?
  simp only
  by_cases hp : p = p'
  swap
  · rw [List.getElem?_modify_ne _ _ hp, if_neg fun hat => hp hat.1]
  subst hp
  rw [List.getElem?_modify_eq, hq]
  simp only [Option.map_eq_map, Option.map_some, Option.bind_some, List.getElem?_set']
  by_cases hkr : k = r.server
  · subst hkr
    rw [if_pos rfl, if_pos ⟨trivial, rfl⟩, hk]
    rfl
  · rw [if_neg hkr, if_neg fun hat => hkr hat.2]

theorem Cluster.active_of {p : Nat} {r : WorkerRef} {sv : Server} (hsv : c.server? p r.server = some sv) :
    c.active p r = sv.active r.balancer r.worker := by
  rw [Cluster.active, hsv]

theorem active_setServer_same {p k : Nat} {sv sv' : Server} (ts : Tables) (hsv : c.server? p k = some sv)
    (hsame : SameActive sv sv') (p' : Nat) (r : WorkerRef) : (c.setServer ts p k sv').active p' r = c.active p' r := by
  rw [active_setServer ts hsv]
  split
  · rename_i hat
    obtain ⟨rfl, rfl⟩ := hat
    rw [hsame, Cluster.active_of hsv]
  · rfl

theorem active_setProxy {p : Nat} {q : Process} (ts : Tables) (px : Proxy) (hq : c.procs[p]? = some q) (p' : Nat)
    (r : WorkerRef) : (c.setProxy ts p px).active p' r = if p = p' then px.active r else c.active p' r := by
  unfold Cluster.active Cluster.setProxy Cluster.server?
  simp only
  by_cases hp : p = p'
  · subst hp
    rw [List.getElem?_modify_eq, hq, if_pos rfl]
    rfl
  · rw [List.getElem?_modify_ne _ _ hp, if_neg hp]

theorem active_proc {p : Nat} {q : Process} (hq : c.procs[p]? = some q) (r : WorkerRef) :
    c.active p r = q.proxy.active r := by
  unfold Cluster.active Cluster.server?
  rw [hq]
  rfl

/-- Every count is the number of the requests that are dispatched. -/
def Traffic.Counted (t : Traffic) : Prop := ∀ p r, t.cluster.active p r = t.dispatched p r

theorem Traffic.Counted.keep {c : Cluster} (h : t.Counted) (hkeep : ∀ p r, c.active p r = t.cluster.active p r) :
    (t.move c t.flights).Counted := fun p r => (hkeep p r).trans (h p r)

theorem Traffic.Counted.erase {f : Flight} (h : t.Counted) (hf : f ∈ t.flights) (ts : Tables) {sv sv' : Server}
    (hsv : t.cluster.server? f.proc f.ref.server = some sv)
    (hout : ∀ b j, sv'.active b j = if f.ref.balancer = b ∧ f.ref.worker = j then
      lessOne (sv.active f.ref.balancer f.ref.worker) else sv.active b j) :
    (t.move (t.cluster.setServer ts f.proc f.ref.server sv') (t.flights.erase f)).Counted := by
  intro p r
  have hcount := countP_erase_add hf fun g => g.proc == p && g.ref == r
  have hold : t.cluster.active p r = t.dispatched p r := h p r
  show (t.cluster.setServer ts f.proc f.ref.server sv').active p r =
    ((t.flights.erase f).countP fun g => g.proc == p && g.ref == r : Nat)
  rw [Traffic.dispatched, hcount] at hold
  rw [active_setServer ts hsv]
  by_cases hat : f.proc = p ∧ f.ref = r
  · obtain ⟨rfl, rfl⟩ := hat
    rw [if_pos ⟨rfl, rfl⟩, hout, if_pos ⟨rfl, rfl⟩, ← Cluster.active_of hsv, hold]
    unfold lessOne
    simp only [beq_self_eq_true, Bool.and_self, if_true]
    omega
  · have hoff : (f.proc == p && f.ref == r) = false := by simpa using hat
    rw [hoff] at hold
    split
    · rename_i hin
      obtain ⟨rfl, hserver⟩ := hin
      have hother : ¬ (f.ref.balancer = r.balancer ∧ f.ref.worker = r.worker) := by
        rintro ⟨hbalancer, hworker⟩
        refine hat ⟨rfl, ?_⟩
        show (⟨f.ref.server, f.ref.balancer, f.ref.worker⟩ : WorkerRef) = r
        rw [hserver, hbalancer, hworker]
      rw [hserver] at hsv
      rw [hout, if_neg hother, ← Cluster.active_of hsv, hold]
      rfl
    · rw [hold]
      rfl

theorem TrafficStep.counted {current : Prop} (hstep : TrafficStep httpd True current t t') (h : t.Counted) :
    t'.Counted := by
  cases hstep with
  | starts p k b j sv hsv w hw r context hcontext hold url url' hd hrun hcurrent =>
    intro p' r'
    have hold := h p' r'
    have hin := dispatch_active hrun r'.balancer r'.worker
    show (t.cluster.setServer hd.world.tables p k hd.world.server).active p' r' =
      ((⟨p, ⟨k, b, j⟩, w.s, context⟩ :: t.flights : List Flight).countP fun g => g.proc == p' && g.ref == r' : Nat)
    rw [active_setServer _ hsv, List.countP_cons]
    by_cases hat : p = p' ∧ (⟨k, b, j⟩ : WorkerRef) = r'
    · obtain ⟨rfl, rfl⟩ := hat
      rw [if_pos ⟨rfl, rfl⟩, hin, if_pos ⟨rfl, rfl⟩, ← Cluster.active_of (r := ⟨k, b, j⟩) hsv, hold]
      simp [Traffic.dispatched]
    · have hoff : (p == p' && (⟨k, b, j⟩ : WorkerRef) == r') = false := by simpa using hat
      rw [hoff]
      split
      · rename_i hserver
        obtain ⟨rfl, rfl⟩ := hserver
        have hother : ¬ (b = r'.balancer ∧ j = r'.worker) := by
          rintro ⟨rfl, rfl⟩
          exact hat ⟨rfl, rfl⟩
        rw [hin, if_neg hother, ← Cluster.active_of hsv, hold]
        simp [Traffic.dispatched]
      · rw [hold]
        rfl
  | retries f hf sv hsv w hw r hd hrun hsteady hcurrent =>
    exact h.erase hf _ hsv (releasePrevious_active hw (hsteady trivial) hrun)
  | ends f hf sv hsv w hw r hd hrun hcurrent => exact h.erase hf _ hsv (postRequest_active hrun)
  | writes p k b j sv hsv f => exact h.keep (active_setServer_same _ hsv (World.write_active ⟨t.cluster.tables, sv⟩ f))
  | readNodeTable p =>
    refine h.keep fun p' r => ?_
    unfold Cluster.active Cluster.server?
    simp only
    by_cases hp : p = p'
    · subst hp
      rw [List.getElem?_modify_eq]
      cases t.cluster.procs[p]? <;> rfl
    · rw [List.getElem?_modify_ne _ _ hp]
  | addWorkers p k q sv hq hsv creatBal main now ou hou hremove i hptr =>
    exact h.keep (active_setServer_same _ hsv addBalancersWorkersForServer_active)
  | checkWorkers p k sv sv' hsv hcheck hsteady =>
    refine h.keep fun p' r => ?_
    rw [active_setServer _ hsv]
    split
    · rename_i hat
      obtain ⟨rfl, rfl⟩ := hat
      rw [Cluster.active_of hsv]
      rcases checkWorkers_active hcheck r.balancer r.worker with hsame | ⟨w, hw, hchanged, hzero⟩
      · exact hsame
      · have hnone := hsteady trivial r.balancer r.worker w hw hchanged
        have hold := h p r
        rw [hzero, ← Cluster.active_of hsv, hold, hnone]
        rfl
    · rfl
  | removeWorkers p k sv hsv now i ts' sv' hrun =>
    exact h.keep (active_setServer_same _ hsv (removeWorkersNode_active hrun).1)
  | lookup p k sv hsv id i =>
    exact h.keep (active_setServer_same _ hsv (sameActive_of_seats (getWorkerFromIdStat_seats _ sv id i)))
  | isup p k sv hsv creatBal main now i =>
    exact h.keep (active_setServer_same _ hsv addBalancersWorkersForServer_active)
  | config p q hq mconf now argv px hpx hsteady =>
    refine h.keep fun p' r => ?_
    rw [active_setProxy _ px hq]
    split
    · rename_i hp
      subst hp
      rcases processConfig_active hpx r with hsame | ⟨args, hparse, hagain, hzero⟩
      · rw [hsame, active_proc hq]
      · have hnone := hsteady trivial args r hparse hagain
        rw [hzero, h p r, hnone]
        rfl
    · rfl
  | tables ts hts => exact h.keep fun _ _ => rfl

theorem Traffic.Initial.counted (h : t.Initial) : t.Counted := by
  intro p r
  have hzero : t.cluster.active p r = 0 := by
    unfold Cluster.active Server.active
    split
    swap
    · rfl
    rename_i sv hsv
    split
    swap
    · rfl
    rename_i w hw
    unfold Cluster.server? at hsv
    rw [Option.bind_eq_some_iff] at hsv
    obtain ⟨q, hq, hk⟩ := hsv
    unfold Server.worker? at hw
    rw [Option.bind_eq_some_iff] at hw
    obtain ⟨bal, hbal, hj⟩ := hw
    have hmem : w ∈ q.proxy.workers :=
      List.mem_flatMap.2 ⟨sv, List.mem_of_getElem? hk, List.mem_flatMap.2 ⟨bal, List.mem_of_getElem? hbal,
        List.mem_of_getElem? hj⟩⟩
    rw [Worker.active, (h.2.1 q (List.mem_of_getElem? hq)).2 w hmem]
  rw [hzero, Traffic.dispatched, h.2.2]
  rfl

/-! ## A request that outlives its node -/

def lonely : Traffic where
  cluster := ⟨emptyTables ⟨1, 1, 1, 1, 1⟩, [⟨⟨[⟨[]⟩]⟩, []⟩]⟩
  births _ := 0
  flights := []

theorem lonely_initial : lonely.Initial := by
  refine ⟨⟨⟨1, 1, 1, 1, 1⟩, rfl⟩, fun q hq => ?_, rfl⟩
  have hq' : q = ⟨⟨[⟨[]⟩]⟩, []⟩ := List.mem_singleton.1 hq
  subst hq'
  exact ⟨rfl, fun w hw => by cases hw⟩

def Traffic.process (t : Traffic) : Process := (t.cluster.procs[0]?).getD ⟨⟨[]⟩, []⟩

def Traffic.server (t : Traffic) : Server := (t.cluster.server? 0 0).getD ⟨[]⟩

def Traffic.config (t : Traffic) (argv : Argv) : Traffic :=
  let res := processConfig plainHttpd Mconf.default 0 t.cluster.tables (some t.process.proxy) argv
  t.move (t.cluster.setProxy res.tables 0 (res.proxy.getD ⟨[]⟩)) t.flights

def Traffic.read (t : Traffic) : Traffic :=
  t.move { t.cluster with procs := t.cluster.procs.modify 0 fun q =>
    { q with seen := readNodeTable t.cluster.tables ++ q.seen } } t.flights

/-- A worker for the first node of the table that was read. -/
def Traffic.join (t : Traffic) : Traffic :=
  let q := addBalancersWorkersForServer plainHttpd .all true 0 t.cluster.tables t.server
    (t.cluster.tables.nodes.peek 0).mess 0
  t.move (t.cluster.setServer q.1 0 0 q.2.1) t.flights

def anyRequest : Request := ⟨Text.ofStr [], Text.ofStr [], none, none, [], Notes.empty⟩

def Traffic.start (t : Traffic) (context : Option Incarnation) : Traffic :=
  let q := dispatch 0 0 [] ⟨⟨t.cluster.tables, t.server⟩,
    anyRequest.setContextId (context.map fun n => (n.slot : Int))⟩
  t.move (t.cluster.setServer q.1.world.tables 0 0 q.1.world.server) (⟨0, ⟨0, 0, 0⟩, .slot 0, context⟩ :: t.flights)

section Carrying

variable {steady current : Prop}

theorem getD_of_isSome {α : Type} {o : Option α} {d : α} (h : o.isSome = true) : o = some (o.getD d) := by
  cases o with
  | none => cases h
  | some a => rfl

theorem Traffic.config_run {argv : Argv} (hproc : (t.cluster.procs[0]?).isSome = true)
    (hproxy : (processConfig plainHttpd Mconf.default 0 t.cluster.tables (some t.process.proxy) argv).proxy.isSome = true)
    (hsteady : steady → t.flights = []) : TrafficRun plainHttpd steady current t (t.config argv) := by
  refine Relation.ReflTransGen.single (TrafficStep.config 0 t.process (getD_of_isSome hproc) Mconf.default 0 argv _
    (getD_of_isSome hproxy) fun hs args r _ _ => ?_)
  rw [Traffic.dispatched, hsteady hs]
  rfl

theorem Traffic.join_run (hproc : (t.cluster.procs[0]?).isSome = true) (hserver : (t.cluster.server? 0 0).isSome = true)
    (hseen : ⟨0, t.cluster.tables.nodes.peek 0, some 0⟩ ∈ t.process.seen)
    (hremove : (t.cluster.tables.nodes.peek 0).mess.remove = false) :
    TrafficRun plainHttpd steady current t t.join :=
  Relation.ReflTransGen.single (TrafficStep.addWorkers 0 0 t.process t.server (getD_of_isSome hproc)
    (getD_of_isSome hserver) .all true 0 ⟨0, t.cluster.tables.nodes.peek 0, some 0⟩ hseen hremove 0 rfl)

theorem Traffic.start_run {context : Option Incarnation} (hserver : (t.cluster.server? 0 0).isSome = true)
    (hworker : (t.server.worker? 0 0).map (·.s) = some (.slot 0))
    (hok : (dispatch 0 0 [] ⟨⟨t.cluster.tables, t.server⟩,
      anyRequest.setContextId (context.map fun n => (n.slot : Int))⟩).2.1 = .ok 0)
    (hold : ∀ n, context = some n → n.birth ≤ t.births n.slot) (hcurrent : current → t.Current context) :
    TrafficRun plainHttpd steady current t (t.start context) := by
  rw [Option.map_eq_some_iff] at hworker
  obtain ⟨w, hw, hs⟩ := hworker
  have hstep : TrafficStep plainHttpd steady current t (t.move _ (⟨0, ⟨0, 0, 0⟩, w.s, context⟩ :: t.flights)) :=
    TrafficStep.starts 0 0 0 0 t.server (getD_of_isSome hserver) w hw _ context rfl hold [] _ _
      (Prod.ext rfl (Prod.ext hok rfl)) hcurrent
  rw [hs] at hstep
  exact Relation.ReflTransGen.single hstep

end Carrying

def loneNode : Argv := Argv.ofTokens [ascii "JVMRoute", ascii "node1"]

/-- The process has a worker for the node, and a request is on its way to it. -/
def carrying : Traffic := (((lonely.config loneNode).read).join).start none

theorem joining_facts :
    (processConfig plainHttpd Mconf.default 0 lonely.cluster.tables (some lonely.process.proxy) loneNode).proxy.isSome = true ∧
      ((lonely.config loneNode).read.cluster.procs[0]?).isSome = true ∧
      ((lonely.config loneNode).read.cluster.server? 0 0).isSome = true ∧
      ⟨0, (lonely.config loneNode).read.cluster.tables.nodes.peek 0, some 0⟩ ∈ (lonely.config loneNode).read.process.seen ∧
      ((lonely.config loneNode).read.cluster.tables.nodes.peek 0).mess.remove = false := by
  decide +kernel

theorem joining_run (steady current : Prop) :
    TrafficRun plainHttpd steady current lonely (lonely.config loneNode).read.join := by
  obtain ⟨hproxy, hproc, hserver, hseen, hremove⟩ := joining_facts
  have hconfig : TrafficRun plainHttpd steady current lonely (lonely.config loneNode) :=
    Traffic.config_run rfl hproxy fun _ => rfl
  have hread : TrafficStep plainHttpd steady current (lonely.config loneNode) (lonely.config loneNode).read :=
    TrafficStep.readNodeTable 0
  exact (hconfig.tail hread).trans (Traffic.join_run hproc hserver hseen hremove)

theorem carrying_facts :
    ((lonely.config loneNode).read.join.cluster.server? 0 0).isSome = true ∧
      ((lonely.config loneNode).read.join.server.worker? 0 0).map (·.s) = some (.slot 0) ∧
      (dispatch 0 0 [] ⟨⟨(lonely.config loneNode).read.join.cluster.tables, (lonely.config loneNode).read.join.server⟩,
        anyRequest.setContextId none⟩).2.1 = .ok 0 ∧
      carrying.dispatched 0 ⟨0, 0, 0⟩ = 1 := by
  decide +kernel

theorem carrying_run (steady : Prop) : TrafficRun plainHttpd steady False lonely carrying := by
  obtain ⟨hserver, hworker, hok, -⟩ := carrying_facts
  exact (joining_run steady False).trans (Traffic.start_run hserver hworker hok nofun nofun)

/-- Counts are the numbers of dispatched requests, and a worker is only taken from its slot
when it has none. -/
theorem active_dispatched (httpd : Httpd) (t₀ t : Traffic) (h₀ : t₀.Initial)
    (hrun : TrafficRun httpd True False t₀ t) :
    (∀ p r, t.cluster.active p r = t.dispatched p r) ∧
      ∀ p k sv now i ts' sv', t.cluster.server? p k = some sv →
        removeWorkersNode httpd now t.cluster.tables sv i = some (ts', sv') →
        ∀ b j w w', sv.worker? b j = some w → sv'.worker? b j = some w' → w'.s ≠ w.s →
          t.dispatched p ⟨k, b, j⟩ = 0 := by
  have hcounted : t.Counted := by
    induction hrun with
    | refl => exact h₀.counted
    | tail _ hstep ih => exact hstep.counted ih
  refine ⟨hcounted, ?_⟩
  intro p k sv now i ts' sv' hsv hremove b j w w' hw hw' hmoved
  have hzero := (removeWorkersNode_active hremove).2 b j w w' hw hw' hmoved
  have hcount := hcounted p ⟨k, b, j⟩
  rw [Cluster.active_of (r := ⟨k, b, j⟩) hsv, Server.active_of hw, hzero] at hcount
  omega

theorem active_dispatched_carrying :
    carrying.dispatched 0 ⟨0, 0, 0⟩ = 1 ∧ carrying.cluster.active 0 ⟨0, 0, 0⟩ = carrying.dispatched 0 ⟨0, 0, 0⟩ :=
  ⟨carrying_facts.2.2.2, (active_dispatched plainHttpd lonely carrying lonely_initial (carrying_run True)).1 0 ⟨0, 0, 0⟩⟩

/-- The node is removed under the request, and comes back. -/
def returned : Traffic :=
  let removed := (processAppCmd plainHttpd 0 carrying.cluster.tables NODE_COMMAND loneNode .remove).tables
  let retired := removeRemovedNode plainHttpd 10 300 removed
  ((carrying.move { carrying.cluster with tables := removed } carrying.flights).move
    { carrying.cluster with tables := retired } carrying.flights).config loneNode

/-- CONFIG pairs the worker again and sets its count to 0. -/
theorem not_active_dispatched :
    ∃ t₀ t, t₀.Initial ∧ TrafficRun plainHttpd False False t₀ t ∧
      t.cluster.active 0 ⟨0, 0, 0⟩ ≠ t.dispatched 0 ⟨0, 0, 0⟩ := by
  refine ⟨lonely, returned, lonely_initial, ?_, by decide +kernel⟩
  refine (((carrying_run False).tail (TrafficStep.tables _ (Step.app 0 NODE_COMMAND loneNode .remove nofun))).tail
    (TrafficStep.tables _ (Step.watchdog 10 300))).trans ?_
  exact Traffic.config_run (by decide +kernel) (by decide +kernel) nofun

end Runs

end ModCluster
