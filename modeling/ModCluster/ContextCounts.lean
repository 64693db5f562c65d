import ModCluster.ActiveCounts
import ModCluster.AppEdits

/-!
# Requests of the contexts

What the commands and the watchdogs do to the counts `nbrequests` of the context
records, and that they count the requests that are dispatched in all runs in which
no request meets a slot that was filled again.
-/

open CString Slotmem Slotmem.Table

namespace ModCluster

/-! ## Records that come and go -/

section Records

variable {m m' m'' : Table Contextinfo}

/-- Records were only added, with no requests. -/
structure Grown (m m' : Table Contextinfo) : Prop where
  old : ∀ i c, m.used i = some c → ∃ c', m'.used i = some c' ∧ c'.nbrequests = c.nbrequests
  new : ∀ i c', m'.used i = some c' → m.used i = none → c'.nbrequests = 0

/-- Records were only removed. -/
def Shrunk (m m' : Table Contextinfo) : Prop := ∀ i c, m'.used i = some c → m.used i = some c

/-- No record has lost its count. -/
def Kept (m m' : Table Contextinfo) : Prop :=
  ∀ i c', m'.used i = some c' →
    (∃ c, m.used i = some c ∧ c'.nbrequests = c.nbrequests) ∨ (m.used i = none ∧ c'.nbrequests = 0)

theorem Grown.refl : Grown m m := ⟨fun _ c hc => ⟨c, hc, rfl⟩, fun i c hc hfree => by rw [hfree] at hc; cases hc⟩

theorem Grown.trans (h : Grown m m') (h' : Grown m' m'') : Grown m m'' where
  old i c hc := by
    obtain ⟨c', hc', heq⟩ := h.old i c hc
    obtain ⟨c'', hc'', heq'⟩ := h'.old i c' hc'
    exact ⟨c'', hc'', heq'.trans heq⟩
  new i c'' hc'' hfree := by
    cases hc' : m'.used i with
    | none => exact h'.new i c'' hc'' hc'
    | some c' =>
      obtain ⟨x, hx, heq⟩ := h'.old i c' hc'
      rw [hc'', Option.some.injEq] at hx
      rw [hx, heq]
      exact h.new i c' hc' hfree

theorem Grown.kept (h : Grown m m') : Kept m m' := by
  intro i c' hc'
  cases hc : m.used i with
  | none => exact Or.inr ⟨rfl, h.new i c' hc' hc⟩
  | some c =>
    obtain ⟨x, hx, heq⟩ := h.old i c hc
    rw [hc', Option.some.injEq] at hx
    exact Or.inl ⟨c, rfl, hx ▸ heq⟩

theorem Shrunk.refl : Shrunk m m := fun _ _ hc => hc

theorem Shrunk.trans (h : Shrunk m m') (h' : Shrunk m' m'') : Shrunk m m'' := fun i c hc => h i c (h' i c hc)

theorem Shrunk.kept (h : Shrunk m m') : Kept m m' := fun i c' hc' => Or.inl ⟨c', h i c' hc', rfl⟩

theorem grown_poke {i : Nat} {c : Contextinfo} (h : c.nbrequests = (m.peek i).nbrequests) : Grown m (m.poke i c) where
  old j a ha := by
    refine ⟨_, used_poke_of c ha, ?_⟩
    split
    · rename_i hij
      subst hij
      rw [h, peek_of_used ha]
    · rfl
  new j a ha hfree := by
    rcases used_of_poke ha with ⟨rfl, -, b, hb⟩ | ⟨-, hb⟩
    · rw [hfree] at hb
      cases hb
    · rw [hfree] at hb
      cases hb

theorem shrunk_release (m : Table Contextinfo) (id : Int) : Shrunk m (m.release id) := by
  intro i c hc
  unfold release at hc
  split at hc
  · exact (used_of_free hc).2
  · exact hc

theorem shrunk_sweep (p : Contextinfo → Bool) (m : Table Contextinfo) (ids : List Int) :
    Shrunk m (m.sweep (·.id) p ids) := by
  induction ids generalizing m with
  | nil => exact Shrunk.refl
  | cons id rest ih =>
    unfold sweep
    split
    · refine Shrunk.trans ?_ (ih _)
      split
      · exact shrunk_release _ _
      · exact Shrunk.refl
    · exact ih m

end Records

/-! ## The commands -/

section Commands

variable {httpd : Httpd} {now : Int} {cmd : ContextStatus} {m m' : Table Contextinfo} {ts ts' : Tables}

theorem insertUpdateContext_grown {context : Contextinfo} (h : insertUpdateContext now m context = some m') :
    Grown m m' := by
  rcases insertUpdateContext_cases h with ⟨i, a, -, ha, rfl⟩ | ⟨i, -, hlt, hfree, rfl⟩
  · refine grown_poke ?_
    rw [peek_of_used ha]
  · constructor
    · intro j c hc
      have hne : i ≠ j := by
        rintro rfl
        rw [hfree] at hc
        cases hc
      exact ⟨c, (used_store_ne _ hne).trans hc, rfl⟩
    · intro j c hc hj
      rcases used_of_store hc with ⟨-, rfl⟩ | ⟨-, hold⟩
      · rfl
      · rw [hj] at hold
        cases hold

theorem readRemoveContext_shrunk (m : Table Contextinfo) (context : Contextinfo) :
    Shrunk m (readRemoveContext m context) := by
  unfold readRemoveContext
  split
  · exact shrunk_release _ _
  · exact Shrunk.refl

theorem addContexts_grown (id vid : Int) (host : Str) (contexts : List Str) (m : Table Contextinfo) :
    Grown m (addContexts now id vid host contexts m).1 := by
  induction contexts generalizing m with
  | nil => exact Grown.refl
  | cons context rest ih =>
    unfold addContexts
    split
    · rename_i m' hm
      exact (insertUpdateContext_grown hm).trans (ih m')
    · exact ih m

theorem addAliases_grown (id : Int) (contexts aliases : List Str) (vid : Int) (ts : Tables) :
    Grown ts.contexts (addAliases now id contexts aliases vid ts).1.contexts := by
  induction aliases generalizing vid ts with
  | nil => exact Grown.refl
  | cons host rest ih =>
    unfold addAliases
    split
    · exact ih vid ts
    · refine Grown.trans ?_ (ih _ _)
      exact addContexts_grown _ _ _ _ _

theorem nodeCmdContexts_grown (hcmd : cmd ≠ .remove) (vhost node : Int) (m : Table Contextinfo) (ids : List Int) :
    Grown m (nodeCmdContexts now cmd vhost node m ids) := by
  induction ids generalizing m with
  | nil => exact Grown.refl
  | cons id rest ih =>
    unfold nodeCmdContexts
    split
    swap
    · exact ih m
    rename_i i hi
    simp only
    split
    swap
    · exact ih m
    refine Grown.trans ?_ (ih _)
    have hpoke : Grown m (m.poke i (setStatus (m.peek i) cmd)) := grown_poke rfl
    cases hm : insertUpdateContext now (m.poke i (setStatus (m.peek i) cmd)) (setStatus (m.peek i) cmd) with
    | none => exact hpoke
    | some m' => exact hpoke.trans (insertUpdateContext_grown hm)

theorem nodeCmdHosts_grown (hcmd : cmd ≠ .remove) (node : Int) (ids : List Int) (ts : Tables) :
    Grown ts.contexts (nodeCmdHosts now cmd node ts ids).contexts := by
  induction ids generalizing ts with
  | nil => exact Grown.refl
  | cons id rest ih =>
    unfold nodeCmdHosts
    split
    swap
    · exact ih ts
    simp only
    split
    · exact ih ts
    · refine Grown.trans ?_ (ih _)
      exact nodeCmdContexts_grown hcmd _ _ _ _

theorem nodeCmdHosts_shrunk (node : Int) (ids : List Int) (ts : Tables) :
    Shrunk ts.contexts (nodeCmdHosts now .remove node ts ids).contexts := by
  induction ids generalizing ts with
  | nil => exact Shrunk.refl
  | cons id rest ih =>
    unfold nodeCmdHosts
    split
    swap
    · exact ih ts
    simp only
    split
    · exact ih ts
    · refine Shrunk.trans ?_ (ih _)
      rw [nodeCmdContexts_remove]
      exact shrunk_sweep _ _ _

theorem processNodeCmd_kept (ts : Tables) (i : Nat) : Kept ts.contexts (processNodeCmd now cmd ts i).contexts := by
  unfold processNodeCmd
  split
  · exact Grown.refl.kept
  simp only
  split
  · rename_i hcmd
    subst hcmd
    exact (nodeCmdHosts_shrunk _ _ _).kept
  · rename_i hcmd
    exact (nodeCmdHosts_grown hcmd _ _ _).kept

theorem appContexts_grown (hcmd : cmd ≠ .remove) (node vhost : Int) (contexts : List Str) (m : Table Contextinfo) :
    Grown m (appContexts now cmd node vhost contexts m).1 := by
  induction contexts generalizing m with
  | nil => exact Grown.refl
  | cons context rest ih =>
    unfold appContexts
    split
    · rename_i m' hm
      unfold insertUpdateContextHelper at hm
      rw [if_neg hcmd] at hm
      exact (insertUpdateContext_grown hm).trans (ih m')
    · exact ih m

theorem appContexts_shrunk (node vhost : Int) (contexts : List Str) (m : Table Contextinfo) :
    Shrunk m (appContexts now .remove node vhost contexts m).1 := by
  induction contexts generalizing m with
  | nil => exact Shrunk.refl
  | cons context rest ih =>
    unfold appContexts
    split
    · rename_i m' hm
      cases hm
      exact (readRemoveContext_shrunk _ _).trans (ih _)
    · exact ih m

theorem dropHosts_contexts (ts : Tables) (node vhost : Int) : (dropHosts ts node vhost).contexts = ts.contexts := by
  unfold dropHosts
  split <;> rfl

theorem appAliases_grown (hcmd : cmd ≠ .remove) (node : Int) (contexts aliases : List Str) (vid : Int) (ts : Tables) :
    Grown ts.contexts (appAliases now cmd node contexts aliases vid ts).1.contexts := by
  induction aliases generalizing vid ts with
  | nil => exact Grown.refl
  | cons host rest ih =>
    unfold appAliases
    split
    · refine Grown.trans ?_ (ih _ _)
      exact Grown.refl
    · simp only
      rw [if_neg hcmd]
      refine Grown.trans ?_ (ih _ _)
      exact appContexts_grown hcmd _ _ _ _

theorem appAliases_shrunk (node : Int) (contexts aliases : List Str) (vid : Int) (ts : Tables) :
    Shrunk ts.contexts (appAliases now .remove node contexts aliases vid ts).1.contexts := by
  induction aliases generalizing vid ts with
  | nil => exact Shrunk.refl
  | cons host rest ih =>
    unfold appAliases
    split
    · refine Shrunk.trans ?_ (ih _ _)
      exact Shrunk.refl
    · simp only
      refine Shrunk.trans ?_ (ih _ _)
      rw [if_pos trivial, dropHosts_contexts]
      exact appContexts_shrunk _ _ _ _

theorem processAppCmd_kept (httpd : Httpd) (now : Int) (ts : Tables) (filename : Str) (argv : Argv)
    (cmd : ContextStatus) : Kept ts.contexts (processAppCmd httpd now ts filename argv cmd).tables.contexts := by
  unfold processAppCmd
  simp only
  split
  · exact Grown.refl.kept
  · exact Grown.refl.kept
  split
  · exact Grown.refl.kept
  split
  · exact Grown.refl.kept
  split
  · exact processNodeCmd_kept (incVersionNode ts) _
  · simp only
    by_cases hcmd : cmd = .remove
    · subst hcmd
      exact (appAliases_shrunk _ _ _ _ (incVersionNode ts)).kept
    · exact (appAliases_grown hcmd _ _ _ _ (incVersionNode ts)).kept

theorem pairWorker_contexts {px px' : Option Proxy} {plan : Plan} {nodeinfo : Nodeinfo} {id : Int}
    (h : pairWorker now ts px plan nodeinfo id = some (ts', px')) : ts'.contexts = ts.contexts := by
  unfold pairWorker at h
  split at h
  · cases h
    rfl
  · repeat' split at h
    all_goals cases h
    rfl

theorem processConfig_grown (httpd : Httpd) (mconf : Mconf) (now : Int) (ts : Tables) (px : Option Proxy)
    (argv : Argv) : Grown ts.contexts (processConfig httpd mconf now ts px argv).tables.contexts := by
  unfold processConfig
  split
  · exact Grown.refl
  split
  · exact Grown.refl
  · exact Grown.refl
  rename_i args _ _ plan _
  have hcommit := commitConfig_committed now ts px args plan
  generalize commitConfig now ts px args plan = res at hcommit ⊢
  cases hcommit with
  | noBalancer hb => exact Grown.refl
  | noNode balancers b hb hn => exact Grown.refl
  | aborted balancers b nodes nodeinfo id hb hn hp => exact Grown.refl
  | stored balancers b nodes nodeinfo id ts' px' r hb hn hp hr =>
    subst hr
    have hts := pairWorker_contexts hp
    simp only at hts
    rw [← hts]
    exact addAliases_grown _ _ _ _ (incVersionNode ts')

theorem locRemoveHostContext_shrunk (id : Int) (ts : Tables) :
    Shrunk ts.contexts (locRemoveHostContext id ts).contexts := by
  unfold locRemoveHostContext
  split
  · exact Shrunk.refl
  · exact shrunk_sweep _ _ _

theorem removeRemovedLoop_shrunk {wait : Int} (ids : List Int) (ts : Tables) :
    Shrunk ts.contexts (removeRemovedLoop httpd wait now ids ts).contexts := by
  induction ids generalizing ts with
  | nil => exact Shrunk.refl
  | cons id rest ih =>
    unfold removeRemovedLoop
    refine Shrunk.trans ?_ (ih _)
    unfold removeRemovedStep
    split
    · exact Shrunk.refl
    simp only
    split
    · split
      · exact Shrunk.refl
      · split <;> exact Shrunk.refl
    split
    · exact locRemoveHostContext_shrunk _ _
    · exact Shrunk.refl

theorem lbRemoveRemovedNode_shrunk {wait : Int} (ids : List Int) (ts : Tables) :
    Shrunk ts.contexts (lbRemoveRemovedNode wait now ids ts).contexts := by
  induction ids generalizing ts with
  | nil => exact Shrunk.refl
  | cons id rest ih =>
    unfold lbRemoveRemovedNode
    refine Shrunk.trans ?_ (ih _)
    unfold lbRemoveStep
    split
    · exact Shrunk.refl
    simp only
    split
    · exact locRemoveHostContext_shrunk _ _
    · exact Shrunk.refl

theorem Step.kept (h : Step httpd False ts ts') : Kept ts.contexts ts'.contexts := by
  cases h with
  | config mconf now px argv => exact (processConfig_grown httpd mconf now ts px argv).kept
  | app now filename argv cmd => exact processAppCmd_kept httpd now ts filename argv cmd
  | watchdog wait now => exact (removeRemovedLoop_shrunk _ _).kept
  | lbWatchdog wait now nodeTable => exact (lbRemoveRemovedNode_shrunk _ _).kept
  | bookkeeping i a n hused hkeep => exact Grown.refl.kept

end Commands

/-! ## Counting -/

section Counting

variable {httpd : Httpd} {ts : Tables} {sv : Server} {h : Handling} {b j : Nat}

/-- `upd_context_count`, on the context table alone. -/
def countContext (m : Table Contextinfo) (id : Option Int) (val : Int) : Table Contextinfo :=
  match id.bind (getContext m) with
  | some i => m.poke i (addRequests val (m.peek i))
  | none => m

theorem updContextCount_contexts (ts : Tables) (id : Option Int) (val : Int) :
    (updContextCount ts id val).contexts = countContext ts.contexts id val := by
  unfold updContextCount countContext
  cases id.bind (getContext ts.contexts) <;> rfl

theorem countContext_used (m : Table Contextinfo) (context : Option Incarnation) (val : Int) (i : Nat) :
    (countContext m (context.map fun n => (n.slot : Int)) val).used i =
      (m.used i).map fun c => if context.map (·.slot) = some i then addRequests val c else c := by
  have hsame : (m.used i).map (fun c => c) = m.used i := Option.map_id'
  cases context with
  | none =>
    show m.used i = (m.used i).map fun c => if none = some i then addRequests val c else c
    simp
  | some n =>
    unfold countContext
    simp only [Option.map_some, Option.bind_some, Option.some.injEq]
    by_cases hlt : n.slot < m.size
    · have hd : getContext m (n.slot : Int) = some n.slot := dptr_ofNat hlt
      rw [hd]
      simp only
      by_cases hi : n.slot = i
      · subst hi
        simp only [if_true]
        cases hc : m.used n.slot with
        | none => exact used_poke_none _ hc
        | some c =>
          rw [peek_of_used hc]
          exact used_poke_self _ hc
      · simp only [if_neg hi]
        rw [hsame]
        exact used_poke_ne _ hi
    · have hd : getContext m (n.slot : Int) = none := by
        unfold getContext dptr
        rw [if_neg (by omega)]
      rw [hd]
      simp only
      cases hc : m.used i with
      | none => rfl
      | some c =>
        have hi : n.slot ≠ i := by
          rintro rfl
          exact hlt (used_lt hc)
        simp [hi]

theorem write_contexts (w : World) (f : WorkerShared → WorkerShared) :
    (w.write b j f).tables.contexts = w.tables.contexts := by
  unfold World.write
  split
  · simp only
    unfold Worker.write
    split <;> rfl
  · rfl

theorem updateHelper_tables {h' : Handling} {f : Helper → Helper} (hh : h.updateHelper b j f = some h') :
    h'.world.tables = h.world.tables := by
  have harea : h'.world.tables = h.world.tables ∧ h'.world.area 0 0 = h.world.area 0 0 := updateHelper_area hh
  exact harea.1

theorem dispatch_contexts {r : Request} {url url' : Str} (hrun : dispatch b j url ⟨⟨ts, sv⟩, r⟩ = (h, .ok j, url')) :
    h.world.tables.contexts = countContext ts.contexts r.notes.contextId 1 := by
  unfold dispatch at hrun
  simp only at hrun
  split at hrun
  · cases hrun
  rename_i h₁ hh
  cases hrun
  refine (congrArg Tables.contexts (updateHelper_tables hh)).trans ?_
  refine (updContextCount_contexts _ _ _).trans ?_
  rw [← write_contexts (b := b) (j := j) ⟨ts, sv⟩ busyOnce]
  rfl

theorem postRequest_contexts {r : Request} (hrun : postRequest b j ⟨⟨ts, sv⟩, r⟩ = some h) :
    h.world.tables.contexts = countContext ts.contexts r.notes.contextId (-1) := by
  refine (congrArg Tables.contexts (updateHelper_tables hrun)).trans ?_
  exact updContextCount_contexts _ _ _

theorem releasePrevious_contexts {r : Request} {name : Str} (hname : r.notes.workerName = some name) (hne : name ≠ [])
    (hrun : releasePrevious httpd b ⟨⟨ts, sv⟩, r⟩ = some h) :
    h.world.tables.contexts = countContext ts.contexts r.notes.contextId (-1) := by
  unfold releasePrevious at hrun
  split at hrun
  · rename_i hnone
    rw [hname] at hnone
    cases hnone
  · rename_i hempty
    rw [hname, Option.some.injEq] at hempty
    exact absurd hempty hne
  simp only at hrun
  split at hrun
  · cases hrun
    exact updContextCount_contexts _ _ _
  · refine (congrArg Tables.contexts (updateHelper_tables hrun)).trans ?_
    exact updContextCount_contexts _ _ _

end Counting

/-! ## Runs -/

section Runs

variable {httpd : Httpd} {steady : Prop} {t t' : Traffic} {c : Cluster}

/-- Every count is the number of the requests that are dispatched to the record. -/
structure Traffic.Served (t : Traffic) : Prop where
  count : ∀ i x, t.cluster.tables.contexts.used i = some x → x.nbrequests = t.serving i
  past : ∀ f ∈ t.flights, ∀ n, f.context = some n → n.birth ≤ t.births n.slot

theorem births_le_bump (before after : Table Contextinfo) (births : Nat → Nat) (i : Nat) :
    births i ≤ bump before after births i := by
  unfold bump
  split
  · exact Nat.le_succ _
  · exact Nat.le_refl _

theorem Traffic.Served.fresh (h : t.Served) {i birth : Nat} (hbirth : t.births i < birth) :
    (t.flights.countP fun f => f.context == some ⟨i, birth⟩) = 0 := by
  rw [List.countP_eq_zero]
  intro f hf hcontext
  have hpast := h.past f hf ⟨i, birth⟩ (by simpa using hcontext)
  exact Nat.lt_irrefl _ (Nat.lt_of_lt_of_le hbirth hpast)

theorem Traffic.Served.kept (h : t.Served) (hkept : Kept t.cluster.tables.contexts c.tables.contexts) :
    (t.move c t.flights).Served where
  count i x hx := by
    have hx' : c.tables.contexts.used i = some x := hx
    show x.nbrequests = (t.flights.countP fun f =>
      f.context == some ⟨i, bump t.cluster.tables.contexts c.tables.contexts t.births i⟩ : Nat)
    rcases hkept i x hx' with ⟨y, hy, heq⟩ | ⟨hfree, hzero⟩
    · have hbump : bump t.cluster.tables.contexts c.tables.contexts t.births i = t.births i := by
        unfold bump
        rw [hy]
        rfl
      rw [hbump, heq]
      exact h.count i y hy
    · have hbump : bump t.cluster.tables.contexts c.tables.contexts t.births i = t.births i + 1 := by
        unfold bump
        rw [hfree, hx']
        rfl
      rw [hbump, hzero, h.fresh (Nat.lt_succ_self _)]
      rfl
  past f hf n hn := Nat.le_trans (h.past f hf n hn) (births_le_bump _ _ _ _)

theorem Traffic.Served.counted {context : Option Incarnation} {val : Int} {flights : List Flight} (h : t.Served)
    (hcurrent : t.Current context)
    (hcontexts : c.tables.contexts =
      countContext t.cluster.tables.contexts (context.map fun n => (n.slot : Int)) val)
    (hflights : ∀ n, ((flights.countP fun f => f.context == some n : Nat) : Int) =
      (t.flights.countP fun f => f.context == some n : Nat) + if context = some n then val else 0)
    (hpast : ∀ f ∈ flights, ∀ n, f.context = some n → n.birth ≤ t.births n.slot) :
    (t.move c flights).Served := by
  have hused := countContext_used t.cluster.tables.contexts context val
  rw [← hcontexts] at hused
  have hbump : bump t.cluster.tables.contexts c.tables.contexts t.births = t.births := by
    funext i
    unfold bump
    rw [hused]
    cases t.cluster.tables.contexts.used i <;> rfl
  constructor
  · intro i x hx
    have hx' : c.tables.contexts.used i = some x := hx
    show x.nbrequests = (flights.countP fun f =>
      f.context == some ⟨i, bump t.cluster.tables.contexts c.tables.contexts t.births i⟩ : Nat)
    rw [hused, Option.map_eq_some_iff] at hx'
    obtain ⟨y, hy, rfl⟩ := hx'
    have hcount : y.nbrequests = _ := h.count i y hy
    unfold Traffic.serving at hcount
    rw [hbump, hflights, ← hcount]
    by_cases hslot : context.map (·.slot) = some i
    · rw [if_pos hslot]
      rw [Option.map_eq_some_iff] at hslot
      obtain ⟨n, rfl, rfl⟩ := hslot
      have hbirth : t.births n.slot = n.birth := hcurrent n rfl (by rw [hy]; exact Option.some_ne_none y)
      rw [hbirth, if_pos rfl]
      rfl
    · rw [if_neg hslot, if_neg, Int.add_zero]
      rintro rfl
      exact hslot rfl
  · intro f hf n hn
    show n.birth ≤ bump t.cluster.tables.contexts c.tables.contexts t.births n.slot
    rw [hbump]
    exact hpast f hf n hn

theorem Traffic.Served.erase {f : Flight} (h : t.Served) (hf : f ∈ t.flights) (hcurrent : t.Current f.context)
    (hcontexts : c.tables.contexts =
      countContext t.cluster.tables.contexts (f.context.map fun n => (n.slot : Int)) (-1)) :
    (t.move c (t.flights.erase f)).Served := by
  refine h.counted hcurrent hcontexts (fun n => ?_) fun g hg => h.past g (List.mem_of_mem_erase hg)
  rw [countP_erase_add hf fun g => g.context == some n]
  simp only [beq_iff_eq]
  split <;> omega

theorem unpairWorkerNode_contexts (ts : Tables) (w : Worker) (i : Nat) :
    (unpairWorkerNode ts w i).1.contexts = ts.contexts := by
  unfold unpairWorkerNode Worker.write
  split <;> rfl

theorem lookupWorkers_contexts (id : Int) (i : Nat) (ws : List Worker) (ts : Tables) :
    (lookupWorkers id i ts ws).1.contexts = ts.contexts := by
  induction ws generalizing ts with
  | nil => rfl
  | cons w rest ih =>
    unfold lookupWorkers
    split
    · rfl
    split
    · rfl
    simp only
    rw [ih]
    split
    · exact unpairWorkerNode_contexts ts w i
    · rfl

theorem getWorkerFromIdStat_contexts (ts : Tables) (sv : Server) (id : Int) (i : Nat) :
    (getWorkerFromIdStat ts sv id i).1.contexts = ts.contexts := by
  unfold getWorkerFromIdStat
  simp only
  generalize sv.balancers = bs
  induction bs generalizing ts with
  | nil => rfl
  | cons b rest ih =>
    unfold lookupBalancers
    simp only
    split
    · rw [ih, lookupWorkers_contexts]
    · exact lookupWorkers_contexts id i b.workers ts

theorem removeWorkersNode_contexts {now : Int} {ts ts' : Tables} {sv sv' : Server} {i : Nat}
    (h : removeWorkersNode httpd now ts sv i = some (ts', sv')) : ts'.contexts = ts.contexts := by
  have hlookup := getWorkerFromIdStat_contexts ts sv (ts.nodes.peek i).mess.id i
  unfold removeWorkersNode at h
  simp only at h
  generalize getWorkerFromIdStat ts sv (ts.nodes.peek i).mess.id i = q at h hlookup
  repeat' split at h
  all_goals cases h
  all_goals exact hlookup

theorem StatWrites.contexts {ts ts' : Tables} (h : StatWrites ts ts') : ts'.contexts = ts.contexts := by
  induction h with
  | refl => rfl
  | tail _ hw ih =>
    obtain ⟨i, f, rfl⟩ := hw
    exact ih

theorem TrafficStep.served (hstep : TrafficStep httpd steady True t t') (h : t.Served) : t'.Served := by
  cases hstep with
  | starts p k b j sv hsv w hw r context hcontext hold url url' hd hrun hcurrent =>
    have hcontexts := dispatch_contexts hrun
    rw [hcontext] at hcontexts
    refine h.counted (hcurrent trivial) hcontexts (fun n => ?_) fun g hg n hn => ?_
    · rw [List.countP_cons]
      simp only [beq_iff_eq]
      split <;> omega
    · rcases List.mem_cons.1 hg with rfl | hg
      · exact hold n hn
      · exact h.past g hg n hn
  | retries f hf sv hsv w hw r hd hrun hsteady hcurrent =>
    obtain ⟨hname, hcur⟩ := hcurrent trivial
    exact h.erase hf hcur (releasePrevious_contexts rfl hname hrun)
  | ends f hf sv hsv w hw r hd hrun hcurrent => exact h.erase hf (hcurrent trivial) (postRequest_contexts hrun)
  | writes p k b j sv hsv f =>
    refine h.kept ?_
    show Kept _ (World.write ⟨t.cluster.tables, sv⟩ b j f).tables.contexts
    rw [write_contexts]
    exact Grown.refl.kept
  | readNodeTable p => exact h.kept Grown.refl.kept
  | addWorkers p k q sv hq hsv creatBal main now ou hou hremove i hptr =>
    refine h.kept ?_
    show Kept _ (addBalancersWorkersForServer _ _ _ _ _ _ _ _).1.contexts
    rw [addBalancersWorkersForServer_spec.1.contexts]
    exact Grown.refl.kept
  | checkWorkers p k sv sv' hsv hcheck hsteady => exact h.kept Grown.refl.kept
  | removeWorkers p k sv hsv now i ts' sv' hrun =>
    refine h.kept ?_
    show Kept _ ts'.contexts
    rw [removeWorkersNode_contexts hrun]
    exact Grown.refl.kept
  | lookup p k sv hsv id i =>
    refine h.kept ?_
    show Kept _ (getWorkerFromIdStat t.cluster.tables sv id i).1.contexts
    rw [getWorkerFromIdStat_contexts]
    exact Grown.refl.kept
  | isup p k sv hsv creatBal main now i =>
    refine h.kept ?_
    show Kept _ (addBalancersWorkersForServer _ _ _ _ _ _ _ _).1.contexts
    rw [addBalancersWorkersForServer_spec.1.contexts]
    exact Grown.refl.kept
  | config p q hq mconf now argv px hpx hsteady => exact h.kept (processConfig_grown httpd mconf now _ _ argv).kept
  | tables ts hts => exact h.kept hts.kept

theorem Traffic.Initial.served (h : t.Initial) : t.Served := by
  obtain ⟨⟨sz, hts⟩, -, hflights⟩ := h
  constructor
  · intro i x hx
    rw [hts] at hx
    simp [emptyTables, used_empty] at hx
  · intro f hf
    rw [hflights] at hf
    cases hf

theorem TrafficRun.served (hrun : TrafficRun httpd steady True t t') (h : t.Served) : t'.Served := by
  induction hrun with
  | refl => exact h
  | tail _ hstep ih => exact hstep.served ih

/-! ## A request that outlives its context -/

def appArgv (context : Str) : Argv :=
  Argv.ofTokens [ascii "JVMRoute", ascii "node1", ascii "Alias", ascii "localhost", ascii "Context", context]

def Traffic.app (t : Traffic) (context : Str) (cmd : ContextStatus) : Traffic :=
  t.move { t.cluster with
    tables := (processAppCmd plainHttpd 0 t.cluster.tables (ascii "/") (appArgv context) cmd).tables } t.flights

theorem Traffic.app_step {current : Prop} (context : Str) (cmd : ContextStatus) :
    TrafficStep plainHttpd steady current t (t.app context cmd) :=
  TrafficStep.tables _ (Step.app 0 (ascii "/") (appArgv context) cmd nofun)

def theFlight : Flight := ⟨0, ⟨0, 0, 0⟩, .slot 0, some ⟨0, 1⟩⟩

def Traffic.finish (t : Traffic) : Traffic :=
  let h := (postRequest 0 0 ⟨⟨t.cluster.tables, t.server⟩,
    theFlight.notes t.cluster.tables ((t.server.worker? 0 0).getD ⟨.priv, default, none⟩) anyRequest⟩).getD
      ⟨⟨t.cluster.tables, t.server⟩, anyRequest⟩
  t.move (t.cluster.setServer h.world.tables 0 0 h.world.server) (t.flights.erase theFlight)

theorem Traffic.finish_step (hserver : (t.cluster.server? 0 0).isSome = true)
    (hworker : (t.server.worker? 0 0).isSome = true) (hf : theFlight ∈ t.flights)
    (hok : (postRequest 0 0 ⟨⟨t.cluster.tables, t.server⟩,
      theFlight.notes t.cluster.tables ((t.server.worker? 0 0).getD ⟨.priv, default, none⟩) anyRequest⟩).isSome = true) :
    TrafficStep plainHttpd steady False t t.finish :=
  TrafficStep.ends theFlight hf t.server (getD_of_isSome hserver) _ (getD_of_isSome hworker) anyRequest _
    (getD_of_isSome hok) nofun

def ready : Traffic := (lonely.config loneNode).read.join.app (ascii "/app") .enabled

/-- A request is on its way to the context. -/
def visiting : Traffic := ready.start (some ⟨0, 1⟩)

theorem visiting_facts :
    ready.births 0 = 1 ∧ (ready.cluster.server? 0 0).isSome = true ∧
      (ready.server.worker? 0 0).map (·.s) = some (.slot 0) ∧
      (dispatch 0 0 [] ⟨⟨ready.cluster.tables, ready.server⟩, anyRequest.setContextId (some 0)⟩).2.1 = .ok 0 ∧
      visiting.serving 0 = 1 ∧
      visiting.cluster.tables.contexts.used 0 = some (visiting.cluster.tables.contexts.peek 0) := by
  decide +kernel

theorem visiting_run (current : Prop) : TrafficRun plainHttpd False current lonely visiting := by
  obtain ⟨hbirths, hserver, hworker, hok, -⟩ := visiting_facts
  refine ((joining_run False current).tail (Traffic.app_step (ascii "/app") .enabled)).trans ?_
  refine Traffic.start_run hserver hworker hok (fun n hn => ?_) fun _ n hn _ => ?_
  · cases hn
    exact Nat.le_of_eq hbirths.symm
  · cases hn
    exact hbirths

/-- The count of a record in use is the number of the requests that are dispatched to it. -/
theorem nbrequests_serving (httpd : Httpd) (t₀ t : Traffic) (h₀ : t₀.Initial)
    (hrun : TrafficRun httpd False True t₀ t) (i : Nat) (c : Contextinfo)
    (hc : t.cluster.tables.contexts.used i = some c) : 0 ≤ c.nbrequests ∧ c.nbrequests = t.serving i := by
  have hcount := (hrun.served h₀.served).count i c hc
  exact ⟨by omega, hcount⟩

theorem nbrequests_serving_visiting :
    visiting.serving 0 = 1 ∧ (visiting.cluster.tables.contexts.peek 0).nbrequests = visiting.serving 0 :=
  ⟨visiting_facts.2.2.2.2.1,
    (nbrequests_serving plainHttpd lonely visiting lonely_initial (visiting_run True) 0 _ visiting_facts.2.2.2.2.2).2⟩

/-- The slot is given to another context before the request ends. -/
def outlived : Traffic := ((visiting.app (ascii "/app") .remove).app (ascii "/other") .enabled).finish

/-- The slot has been given to another context. -/
def replaced : Traffic := (visiting.app (ascii "/app") .remove).app (ascii "/other") .enabled

theorem outlived_facts :
    outlived.cluster.tables.contexts.used 0 = some (outlived.cluster.tables.contexts.peek 0) ∧
      (outlived.cluster.tables.contexts.peek 0).nbrequests = -1 ∧ (replaced.cluster.server? 0 0).isSome = true ∧
      (replaced.server.worker? 0 0).isSome = true ∧
      (postRequest 0 0 ⟨⟨replaced.cluster.tables, replaced.server⟩, theFlight.notes replaced.cluster.tables
        ((replaced.server.worker? 0 0).getD ⟨.priv, default, none⟩) anyRequest⟩).isSome = true := by
  decide +kernel

theorem not_nbrequests_serving :
    ∃ t₀ t c, t₀.Initial ∧ TrafficRun plainHttpd False False t₀ t ∧ t.cluster.tables.contexts.used 0 = some c ∧
      c.nbrequests = -1 := by
  obtain ⟨hused, hcount, hserver, hworker, hpost⟩ := outlived_facts
  refine ⟨lonely, outlived, outlived.cluster.tables.contexts.peek 0, lonely_initial, ?_, hused, hcount⟩
  have happs : TrafficRun plainHttpd False False lonely replaced :=
    ((visiting_run False).tail (Traffic.app_step (ascii "/app") .remove)).tail
      (Traffic.app_step (ascii "/other") .enabled)
  exact happs.tail (Traffic.finish_step hserver hworker List.mem_cons_self hpost)

end Runs

end ModCluster
