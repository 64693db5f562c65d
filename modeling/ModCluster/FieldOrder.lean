import Mathlib.Data.List.Pairwise
import ModCluster.Decoding
import ModCluster.FieldLoops
import ModCluster.Batches

/-!
# The order of the fields of a CONFIG

The fields that are no lists set different things, so their order does not matter as
long as no key comes twice. Aliases and contexts are taken in the order they come.
-/

open CString Slotmem Slotmem.Table

namespace ModCluster

variable {httpd : Httpd} {now now' : Int}

/-! ## Fields that set different things -/

theorem plainFields_commute :
    (plainFields httpd).Pairwise fun f g => ∀ v w x, f.set v (g.set w x) = g.set w (f.set v x) := by
  simp only [plainFields, balancerFields, nodeFields, List.cons_append, List.nil_append, List.pairwise_cons,
    List.forall_mem_cons]
  repeat' first | (intro _ _ _; rfl) | constructor
  all_goals exact List.forall_mem_nil _

theorem plainFields_comm {f g : PlainField} (hf : f ∈ plainFields httpd) (hg : g ∈ plainFields httpd) (hne : f ≠ g)
    (v w : Str) (x : Nodeinfo × Balancerinfo) : f.set v (g.set w x) = g.set w (f.set v x) := by
  have : Std.Symm fun f g : PlainField => ∀ v w x, f.set v (g.set w x) = g.set w (f.set v x) :=
    ⟨fun f g h v w x => (h w v x).symm⟩
  exact plainFields_commute.forall hf hg hne v w x

theorem applyField_comm {p q : Str × Str} (h : caseEq p.1 q.1 = false) (x : Nodeinfo × Balancerinfo) :
    applyField httpd (applyField httpd x p) q = applyField httpd (applyField httpd x q) p := by
  unfold applyField
  cases hp : fieldNamed httpd p.1 with
  | none => rfl
  | some f =>
    cases hq : fieldNamed httpd q.1 with
    | none => rfl
    | some g =>
      have hkf : caseEq p.1 f.name = true := List.find?_some (p := fun f : PlainField => caseEq p.1 f.name) hp
      have hkg : caseEq q.1 g.name = true := List.find?_some (p := fun f : PlainField => caseEq q.1 f.name) hq
      have hfg : f ≠ g := by
        rintro rfl
        rw [caseEq_congr hkf] at h
        unfold caseEq at h hkg
        rw [beq_iff_eq] at hkg
        rw [hkg, beq_self_eq_true] at h
        cases h
      exact (plainFields_comm (List.mem_of_find?_eq_some hp) (List.mem_of_find?_eq_some hq) hfg p.2 q.2 x).symm

theorem applyField_list {p : Str × Str} (h : isListKey p.1 = true) (x : Nodeinfo × Balancerinfo) :
    applyField httpd x p = x := by
  unfold applyField
  rcases Bool.or_eq_true_iff.mp h with h | h
  · rw [fieldNamed_alias h]
  · rw [fieldNamed_context h]

/-- No key but Alias and Context comes twice. -/
def KeysOnce (pairs : List (Str × Str)) : Prop :=
  (pairs.filter fun p => !isListKey p.1).Pairwise fun p q => caseEq p.1 q.1 = false

instance (pairs : List (Str × Str)) : Decidable (KeysOnce pairs) := inferInstanceAs (Decidable (List.Pairwise _ _))

/-- The same fields, with the aliases and the contexts in the same order. -/
structure Reordered (pairs pairs' : List (Str × Str)) : Prop where
  perm : pairs.Perm pairs'
  aliases : (pairs.filter fun p => caseEq p.1 (ascii "Alias")) = pairs'.filter fun p => caseEq p.1 (ascii "Alias")
  contexts :
    (pairs.filter fun p => caseEq p.1 (ascii "Context")) = pairs'.filter fun p => caseEq p.1 (ascii "Context")

theorem caseEq_comm (a b : Str) : caseEq a b = caseEq b a := Bool.beq_comm

variable {pairs pairs' : List (Str × Str)}

theorem applyField_foldl (h : pairs.Perm pairs') (hkeys : KeysOnce pairs) (x : Nodeinfo × Balancerinfo) :
    pairs.foldl (applyField httpd) x = pairs'.foldl (applyField httpd) x := by
  refine h.foldl_eq' (fun p hp q hq x => ?_) x
  by_cases hpq : p = q
  · rw [hpq]
  cases hcase : caseEq p.1 q.1 with
  | false => exact applyField_comm hcase x
  | true =>
    -- Two fields of one key are two lists, and set nothing.
    have hlist : isListKey p.1 = true := by
      by_contra hno
      have hno : isListKey p.1 = false := Bool.eq_false_iff.mpr hno
      have hno' : isListKey q.1 = false := by
        unfold isListKey at *
        rw [← caseEq_congr hcase, ← caseEq_congr hcase]
        exact hno
      have : Std.Symm fun p q : Str × Str => caseEq p.1 q.1 = false :=
        ⟨fun p q h => by rw [caseEq_comm]; exact h⟩
      have hdiff := List.Pairwise.forall hkeys (List.mem_filter.mpr ⟨hp, by rw [hno]; rfl⟩)
        (List.mem_filter.mpr ⟨hq, by rw [hno']; rfl⟩) hpq
      rw [hcase] at hdiff
      cases hdiff
    have hlist' : isListKey q.1 = true := by
      unfold isListKey at *
      rw [← caseEq_congr hcase, ← caseEq_congr hcase]
      exact hlist
    rw [applyField_list hlist, applyField_list hlist', applyField_list hlist]

theorem flatMap_filter {α β : Type} {f : α → List β} {p : α → Bool} (h : ∀ a, p a = false → f a = []) (l : List α) :
    l.flatMap f = (l.filter p).flatMap f := by
  induction l with
  | nil => rfl
  | cons a l ih =>
    cases hp : p a with
    | true => rw [List.flatMap_cons, List.filter_cons_of_pos hp, List.flatMap_cons, ih]
    | false =>
      rw [List.flatMap_cons, List.filter_cons_of_neg (by rw [hp]; exact Bool.false_ne_true), h a hp, List.nil_append, ih]

theorem aliases_reordered (h : Reordered pairs pairs') : pairs.flatMap aliasesOf = pairs'.flatMap aliasesOf := by
  have hnone : ∀ p : Str × Str, caseEq p.1 (ascii "Alias") = false → aliasesOf p = [] := by
    intro p hp
    rw [aliasesOf, if_neg (by rw [hp]; exact Bool.false_ne_true)]
  rw [flatMap_filter hnone pairs, h.aliases, ← flatMap_filter hnone]

theorem contexts_reordered (h : Reordered pairs pairs') : pairs.flatMap contextsOf = pairs'.flatMap contextsOf := by
  have hnone : ∀ p : Str × Str, caseEq p.1 (ascii "Context") = false → contextsOf p = [] := by
    intro p hp
    rw [contextsOf, if_neg (by rw [hp]; exact Bool.false_ne_true)]
  rw [flatMap_filter hnone pairs, h.contexts, ← flatMap_filter hnone]

/-- What CONFIG takes from its fields does not depend on their order. -/
theorem readConfig_reordered (mconf : Mconf) (h : Reordered pairs pairs') (hkeys : KeysOnce pairs) :
    readConfig httpd mconf pairs = readConfig httpd mconf pairs' := by
  unfold readConfig
  rw [h.perm.all_eq, applyField_foldl h.perm hkeys, aliases_reordered h, contexts_reordered h]

/-! ## Times aside

Two runs from the same tables at different times. Every time that is stored goes into
an `updatetime`, or into the `updated` of the area a worker is paired with. -/

def Nodeinfo.timeless (n : Nodeinfo) : Nodeinfo :=
  { n with updatetime := 0, stat := { n.stat with updated := 0 } }

theorem insertUpdateBalancer_untimed (m : Table Balancerinfo) (balancer : Balancerinfo) :
    insertUpdateBalancer 0 (m.mapData Balancerinfo.untimed) balancer =
      (insertUpdateBalancer now m balancer).map fun r => (r.1.mapData Balancerinfo.untimed, r.2) := by
  have hupdate : ∀ ou inn : Balancerinfo, Balancer.update 0 ou.untimed inn =
      ((Balancer.update now ou inn).1, (Balancer.update now ou inn).2.1.untimed,
        (Balancer.update now ou inn).2.2) := by
    intro ou inn
    unfold Balancer.update Balancerinfo.untimed
    simp only
    split <;> rfl
  have hfresh : ∀ i : Nat, { balancer with id := (i : Int), updatetime := aprTimeSec 0 } =
      Balancerinfo.untimed { balancer with id := (i : Int), updatetime := aprTimeSec now } := fun i => rfl
  exact insertUpdate_mapData hupdate hfresh m balancer

theorem doallNode_timeless (m : Table Nodeinfo) (node : Nodeinfo) :
    (m.mapData Nodeinfo.timeless).doall (Node.update 0) node =
      ((m.doall (Node.update now) node).1, (m.doall (Node.update now) node).2.1.mapData Nodeinfo.timeless,
        (m.doall (Node.update now) node).2.2) := by
  refine doall_mapData (fun ou inn => ?_) m node
  unfold Node.update Nodeinfo.timeless
  simp only
  split <;> rfl

theorem poke_timeless {m m' : Table Nodeinfo} {a a' : Nodeinfo}
    (hm : m.mapData Nodeinfo.timeless = m'.mapData Nodeinfo.timeless) (ha : a.timeless = a'.timeless) (i : Nat) :
    (m.poke i a).mapData Nodeinfo.timeless = (m'.poke i a').mapData Nodeinfo.timeless := by
  rw [← poke_mapData, ← poke_mapData, hm, ha]

theorem insertUpdateNode_timeless (m : Table Nodeinfo) (node : Nodeinfo) (id : Int) (clean : Bool) :
    ((insertUpdateNode now m node id clean).map fun r => (r.1.mapData Nodeinfo.timeless, r.2)) =
      (insertUpdateNode now' m node id clean).map fun r => (r.1.mapData Nodeinfo.timeless, r.2) := by
  have hdo := (@doallNode_timeless now m node).symm.trans (@doallNode_timeless now' m node)
  unfold insertUpdateNode
  obtain ⟨rv, m₁, n₁, h₁⟩ : ∃ rv m₁ n₁, m.doall (Node.update now) node = (rv, m₁, n₁) := ⟨_, _, _, rfl⟩
  obtain ⟨rv', m₂, n₂, h₂⟩ : ∃ rv m₂ n₂, m.doall (Node.update now') node = (rv, m₂, n₂) := ⟨_, _, _, rfl⟩
  rw [h₁, h₂] at hdo ⊢
  simp only [Prod.mk.injEq] at hdo
  obtain ⟨rfl, htables, rfl⟩ := hdo
  have hgrab : (m₁.grab.map fun r => (r.1, r.2.mapData Nodeinfo.timeless)) =
      m₂.grab.map fun r => (r.1, r.2.mapData Nodeinfo.timeless) := by
    rw [← grab_mapData, ← grab_mapData, htables]
  have hfgrab : (m₁.fgrab id).map (·.mapData Nodeinfo.timeless) = (m₂.fgrab id).map (·.mapData Nodeinfo.timeless) := by
    rw [← fgrab_mapData, ← fgrab_mapData, htables]
  have hfresh : ∀ i, (freshNode now n₁ clean i).timeless = (freshNode now' n₁ clean i).timeless := fun i => rfl
  have hstore : ((if id = -1 then
        m₁.grab.map fun r => (r.2.poke r.1 (freshNode now n₁ clean r.1), n₁, (r.1 : Int))
      else
        (m₁.fgrab id).map fun m'' => (m''.poke id.toNat (freshNode now n₁ clean id.toNat), n₁, id)).map
          fun r => (r.1.mapData Nodeinfo.timeless, r.2)) =
      (if id = -1 then
        m₂.grab.map fun r => (r.2.poke r.1 (freshNode now' n₁ clean r.1), n₁, (r.1 : Int))
      else
        (m₂.fgrab id).map fun m'' => (m''.poke id.toNat (freshNode now' n₁ clean id.toNat), n₁, id)).map
          fun r => (r.1.mapData Nodeinfo.timeless, r.2) := by
    split
    · cases hg₁ : m₁.grab <;> cases hg₂ : m₂.grab <;> rw [hg₁, hg₂] at hgrab
      · rfl
      · cases hgrab
      · cases hgrab
      · simp only [Option.map_some, Option.some.injEq, Prod.mk.injEq] at hgrab ⊢
        rw [hgrab.1]
        exact ⟨poke_timeless hgrab.2 (hfresh _) _, trivial, rfl⟩
    · cases hg₁ : m₁.fgrab id <;> cases hg₂ : m₂.fgrab id <;> rw [hg₁, hg₂] at hfgrab
      · rfl
      · cases hfgrab
      · cases hfgrab
      · simp only [Option.map_some, Option.some.injEq, Prod.mk.injEq] at hfgrab ⊢
        exact ⟨poke_timeless hfgrab (hfresh _) _, trivial⟩
  cases rv with
  | eexist => simp only [Option.map_some, htables]
  | success => exact hstore
  | einval => exact hstore
  | notfound => exact hstore

theorem readNodeById_timeless (m : Table Nodeinfo) (id : Int) :
    readNodeById (m.mapData Nodeinfo.timeless) id = readNodeById m id := by
  unfold readNodeById readNode
  rw [dptr_mapData, readBy_mapData]
  intro ou inn
  unfold Node.locReadNode Nodeinfo.timeless
  simp only
  split <;> rfl

theorem addContexts_untimed {id vid : Int} {host : Str} (contexts : List Str) (m : Table Contextinfo) :
    addContexts 0 id vid host contexts (m.mapData Contextinfo.untimed) =
      ((addContexts now id vid host contexts m).1.mapData Contextinfo.untimed,
        (addContexts now id vid host contexts m).2) := by
  induction contexts generalizing m with
  | nil => rfl
  | cons context rest ih =>
    simp only [addContexts, @insertUpdateContextHelper_untimed now]
    cases insertUpdateContextHelper now m (contextRecord id vid .stopped) context .stopped with
    | none => simp only [Option.map_none, ih]
    | some m' => simp only [Option.map_some, ih]

def Tables.timeless (ts : Tables) : Tables :=
  { ts with
    nodes := ts.nodes.mapData Nodeinfo.timeless
    hosts := ts.hosts.mapData Hostinfo.untimed
    contexts := ts.contexts.mapData Contextinfo.untimed
    balancers := ts.balancers.mapData Balancerinfo.untimed }

theorem addAliases_timeless {id vid : Int} {contexts : List Str} (aliases : List Str) (ts : Tables) :
    addAliases 0 id contexts aliases vid ts.timeless =
      ((addAliases now id contexts aliases vid ts).1.timeless, (addAliases now id contexts aliases vid ts).2) := by
  induction aliases generalizing vid ts with
  | nil => rfl
  | cons host rest ih =>
    have hhost : insertUpdateHostHelper 0 ts.timeless.hosts (hostRecord id vid []) host =
        (insertUpdateHostHelper now ts.hosts (hostRecord id vid []) host).map
          fun r => (r.1.mapData Hostinfo.untimed, r.2) :=
      insertUpdateHost_untimed ts.hosts _
    have hcontexts : addContexts 0 id vid host contexts ts.timeless.contexts =
        ((addContexts now id vid host contexts ts.contexts).1.mapData Contextinfo.untimed,
          (addContexts now id vid host contexts ts.contexts).2) :=
      addContexts_untimed contexts ts.contexts
    simp only [addAliases, hhost, hcontexts]
    cases insertUpdateHostHelper now ts.hosts (hostRecord id vid []) host with
    | none => simp only [Option.map_none, ih]
    | some r =>
      have hrest := @ih (vid + 1)
        { ts with hosts := r.1, contexts := (addContexts now id vid host contexts ts.contexts).1 }
      simp only [Option.map_some]
      exact Prod.ext (congrArg (·.1) hrest)
        (congrArg ((addContexts now id vid host contexts ts.contexts).2 ++ ·.2) hrest)

theorem pairWorker_timeless (ts : Tables) (px : Option Proxy) (plan : Plan) (nodeinfo : Nodeinfo) (id : Int) :
    pairWorker 0 ts.timeless px plan nodeinfo id =
      (pairWorker now ts px plan nodeinfo id).map fun r => (r.1.timeless, r.2) := by
  have hread : readNodeById ts.timeless.nodes id = readNodeById ts.nodes id := readNodeById_timeless ts.nodes id
  have hpeek : ∀ i, ts.timeless.nodes.peek i = (ts.nodes.peek i).timeless := peek_mapData rfl ts.nodes
  unfold pairWorker
  rw [hread]
  split
  · rfl
  split
  · rename_i i px r _ _
    cases px.worker? r with
    | none => rfl
    | some w =>
      simp only
      cases w.context with
      | none => rfl
      | some helper =>
        simp only [hpeek]
        have hid : (ts.nodes.peek i).timeless.mess.id = (ts.nodes.peek i).mess.id := rfl
        rw [hid]
        split
        · have hpoke : pokeStat ts.timeless i (initProxyWorker 0 nodeinfo.mess) =
              (pokeStat ts i (initProxyWorker now nodeinfo.mess)).timeless := by
            unfold pokeStat
            rw [hpeek]
            simp only [Tables.timeless, ← poke_mapData]
            rfl
          simp only [reenableProxyWorker, hpoke, Option.map_some]
        · rfl
  · rfl

theorem rollback_timeless (ts : Tables) (removed : Int) (old : Option Balancerinfo) :
    rollback 0 ts.timeless removed old = (rollback now ts removed old).timeless := by
  have hread : ∀ id, readNodeById ts.timeless.nodes id = readNodeById ts.nodes id :=
    fun id => readNodeById_timeless ts.nodes id
  have hpeek : ∀ i, ts.timeless.nodes.peek i = (ts.nodes.peek i).timeless := peek_mapData rfl ts.nodes
  have hmark : ∀ i, markNodeRemoved 0 ts.timeless.nodes i = (markNodeRemoved now ts.nodes i).mapData Nodeinfo.timeless := by
    intro i
    unfold markNodeRemoved
    rw [hpeek, ← poke_mapData]
    rfl
  have hbal : ∀ b, insertUpdateBalancer 0 ts.timeless.balancers b =
      (insertUpdateBalancer now ts.balancers b).map fun r => (r.1.mapData Balancerinfo.untimed, r.2) :=
    insertUpdateBalancer_untimed ts.balancers
  unfold rollback
  simp only [hread, hmark, hbal]
  refine congrArg₂ (fun nodes balancers => { ts.timeless with nodes := nodes, balancers := balancers }) ?_ ?_
  · split
    · rfl
    · split <;> rfl
  · cases old with
    | none => rfl
    | some old =>
      simp only
      cases insertUpdateBalancer now ts.balancers old with
      | none => rfl
      | some r => rfl

theorem map_eq_map_cases {α β : Type} {f : α → β} {x y : Option α} (h : x.map f = y.map f) :
    x = none ∧ y = none ∨ ∃ a b, x = some a ∧ y = some b ∧ f a = f b := by
  cases x with
  | none => exact Or.inl ⟨rfl, Option.map_eq_none_iff.mp h.symm⟩
  | some a =>
    obtain ⟨b, hb, hab⟩ := Option.map_eq_some_iff.mp h.symm
    exact Or.inr ⟨a, b, rfl, hb, hab.symm⟩

theorem commitConfig_timeless (ts : Tables) (px : Option Proxy) (args : ConfigArgs) (plan : Plan) :
    (commitConfig now ts px args plan).outcome = (commitConfig now' ts px args plan).outcome ∧
      (commitConfig now ts px args plan).proxy = (commitConfig now' ts px args plan).proxy ∧
      (commitConfig now ts px args plan).tables.timeless = (commitConfig now' ts px args plan).tables.timeless := by
  unfold commitConfig
  simp only
  have hbal := (@insertUpdateBalancer_untimed now ts.balancers (readBalancer ts.balancers args.balancer).2).symm.trans
    (@insertUpdateBalancer_untimed now' ts.balancers (readBalancer ts.balancers args.balancer).2)
  have hnode := @insertUpdateNode_timeless now now' plan.nodes plan.nodeinfo plan.id plan.clean
  generalize (readBalancer ts.balancers args.balancer).1.map ts.balancers.peek = old
  generalize insertUpdateBalancer now ts.balancers (readBalancer ts.balancers args.balancer).2 = b₁ at hbal ⊢
  generalize insertUpdateBalancer now' ts.balancers (readBalancer ts.balancers args.balancer).2 = b₂ at hbal ⊢
  generalize insertUpdateNode now plan.nodes plan.nodeinfo plan.id plan.clean = n₁ at hnode ⊢
  generalize insertUpdateNode now' plan.nodes plan.nodeinfo plan.id plan.clean = n₂ at hnode ⊢
  obtain ⟨rfl, rfl⟩ | ⟨b₁, b₂, rfl, rfl, hb⟩ := map_eq_map_cases hbal
  · exact ⟨rfl, rfl, rfl⟩
  obtain ⟨hbs, -⟩ := Prod.mk.inj hb
  obtain ⟨rfl, rfl⟩ | ⟨⟨nodes₁, info, id⟩, ⟨nodes₂, info', id'⟩, rfl, rfl, hn⟩ := map_eq_map_cases hnode
  · refine ⟨rfl, rfl, ?_⟩
    simp only [← rollback_timeless]
    refine congrArg (fun ts : Tables => rollback 0 ts plan.removed old) ?_
    simp only [Tables.timeless, hbs]
  obtain ⟨hnodes, hrest⟩ := Prod.mk.inj hn
  cases hrest
  obtain ⟨ts₁, hts₁⟩ : ∃ t, { ts with nodes := nodes₁, balancers := b₁.1 } = t := ⟨_, rfl⟩
  obtain ⟨ts₂, hts₂⟩ : ∃ t, { ts with nodes := nodes₂, balancers := b₂.1 } = t := ⟨_, rfl⟩
  have heq : ts₁.timeless = ts₂.timeless := by
    rw [← hts₁, ← hts₂]
    simp only [Tables.timeless, hbs, hnodes]
  have hpair := @pairWorker_timeless now ts₁ px plan info id
  rw [heq, @pairWorker_timeless now' ts₂ px plan info id] at hpair
  simp only [hts₁, hts₂]
  generalize pairWorker now ts₁ px plan info id = p₁ at hpair ⊢
  generalize pairWorker now' ts₂ px plan info id = p₂ at hpair ⊢
  obtain ⟨rfl, rfl⟩ | ⟨p₂, p₁, rfl, rfl, hp⟩ := map_eq_map_cases hpair
  · exact ⟨rfl, rfl, heq⟩
  obtain ⟨htables, hpx⟩ := Prod.mk.inj hp
  have hinc : (incVersionNode p₂.1).timeless = (incVersionNode p₁.1).timeless := congrArg incVersionNode htables
  have hadd := @addAliases_timeless now id 1 args.contexts args.aliases (incVersionNode p₁.1)
  rw [← hinc, @addAliases_timeless now' id 1 args.contexts args.aliases (incVersionNode p₂.1)] at hadd
  obtain ⟨hts, herrors⟩ := Prod.mk.inj hadd
  simp only [herrors]
  exact ⟨trivial, hpx.symm, hts.symm⟩

theorem processConfig_timeless (mconf : Mconf) (ts : Tables) (px : Option Proxy) {argv argv' : Argv}
    (h : parseConfig httpd mconf argv = parseConfig httpd mconf argv') :
    (processConfig httpd mconf now ts px argv).outcome = (processConfig httpd mconf now' ts px argv').outcome ∧
      (processConfig httpd mconf now ts px argv).proxy = (processConfig httpd mconf now' ts px argv').proxy ∧
      (processConfig httpd mconf now ts px argv).tables.timeless =
        (processConfig httpd mconf now' ts px argv').tables.timeless := by
  unfold processConfig
  rw [h]
  cases parseConfig httpd mconf argv' with
  | error e => exact ⟨rfl, rfl, rfl⟩
  | ok args =>
    simp only
    cases checkConfig httpd ts px args with
    | fail e => exact ⟨rfl, rfl, rfl⟩
    | abort nodes => exact ⟨rfl, rfl, rfl⟩
    | go plan => exact commitConfig_timeless ts px args plan

/-! ## Messages that differ in the order of their fields -/

/-- The message is refused before anything is stored. -/
structure Rejected (ts : Tables) (px : Option Proxy) (r : ConfigResult) : Prop where
  tables : r.tables = ts
  proxy : r.proxy = px
  outcome : ∃ e, r.outcome = .failed e

theorem rejected_of_parse (mconf : Mconf) (ts : Tables) (px : Option Proxy) {argv : Argv} {e : McmpError}
    (h : parseConfig httpd mconf argv = .error e) : Rejected ts px (processConfig httpd mconf now ts px argv) := by
  unfold processConfig
  rw [h]
  exact ⟨rfl, rfl, e, rfl⟩

/-- The order of the fields of a CONFIG does not matter. -/
theorem config_reordered (httpd : Httpd) (mconf : Mconf) (now now' : Int) (ts : Tables) (px : Option Proxy)
    (argv argv' : Argv) (pairs pairs' : List (Str × Str)) (hargv : argv.LaysOut pairs) (hargv' : argv'.LaysOut pairs')
    (h : Reordered pairs pairs') (hkeys : KeysOnce pairs) (hends : ListsEnd pairs) :
    (Rejected ts px (processConfig httpd mconf now ts px argv) ∧
      Rejected ts px (processConfig httpd mconf now' ts px argv')) ∨
    ((processConfig httpd mconf now ts px argv).outcome = (processConfig httpd mconf now' ts px argv').outcome ∧
      (processConfig httpd mconf now ts px argv).proxy = (processConfig httpd mconf now' ts px argv').proxy ∧
      (processConfig httpd mconf now ts px argv).tables.timeless =
        (processConfig httpd mconf now' ts px argv').tables.timeless) := by
  have hends' : ListsEnd pairs' := fun p hp => hends p (h.perm.mem_iff.mpr hp)
  have hparse := parseConfig_eq httpd mconf hargv hends
  have hparse' := parseConfig_eq httpd mconf hargv' hends'
  rw [readConfig_reordered mconf h hkeys] at hparse
  cases hread : readConfig httpd mconf pairs' with
  | none =>
    rw [hread] at hparse hparse'
    obtain ⟨e, he⟩ := hparse
    obtain ⟨e', he'⟩ := hparse'
    exact Or.inl ⟨rejected_of_parse mconf ts px he, rejected_of_parse mconf ts px he'⟩
  | some args =>
    rw [hread] at hparse hparse'
    exact Or.inr (processConfig_timeless mconf ts px (hparse.trans hparse'.symm))

def argvOf (pairs : List (Str × Str)) : Argv where
  mem := tokenMem (pairTokens pairs)
  ptr := tokenOffsets 0 (pairTokens pairs)

theorem argvOf_laysOut {pairs : List (Str × Str)} (h : ∀ p ∈ pairs, 0 ∉ p.1 ∧ 0 ∉ p.2) :
    (argvOf pairs).LaysOut pairs :=
  layout_tokens h 0

def routeFirst : List (Str × Str) :=
  [(ascii "JVMRoute", ascii "n1"), (ascii "Alias", ascii "a"), (ascii "Context", ascii "/x,/y"),
    (ascii "Port", ascii "8080"), (ascii "Alias", ascii "b")]

def routeLast : List (Str × Str) :=
  [(ascii "Context", ascii "/x,/y"), (ascii "Alias", ascii "a"), (ascii "Port", ascii "8080"),
    (ascii "Alias", ascii "b"), (ascii "JVMRoute", ascii "n1")]

theorem routeLast_facts :
    (processConfig plainHttpd Mconf.default 0 (emptyTables ⟨2, 2, 4, 2, 2⟩) none (argvOf routeFirst)).outcome = .done ∧
      (∀ p ∈ routeFirst, 0 ∉ p.1 ∧ 0 ∉ p.2) ∧ (∀ p ∈ routeLast, 0 ∉ p.1 ∧ 0 ∉ p.2) ∧
      (routeFirst.Perm routeLast ∧
        (routeFirst.filter fun p => caseEq p.1 (ascii "Alias")) =
          (routeLast.filter fun p => caseEq p.1 (ascii "Alias")) ∧
        (routeFirst.filter fun p => caseEq p.1 (ascii "Context")) =
          routeLast.filter fun p => caseEq p.1 (ascii "Context")) ∧
      KeysOnce routeFirst ∧ ListsEnd routeFirst := by
  decide +kernel

theorem routeLast_same :
    (processConfig plainHttpd Mconf.default 0 (emptyTables ⟨2, 2, 4, 2, 2⟩) none (argvOf routeFirst)).outcome = .done ∧
    (processConfig plainHttpd Mconf.default 5 (emptyTables ⟨2, 2, 4, 2, 2⟩) none (argvOf routeLast)).outcome = .done ∧
    (processConfig plainHttpd Mconf.default 0 (emptyTables ⟨2, 2, 4, 2, 2⟩) none (argvOf routeFirst)).tables.timeless =
      (processConfig plainHttpd Mconf.default 5 (emptyTables ⟨2, 2, 4, 2, 2⟩) none (argvOf routeLast)).tables.timeless := by
  obtain ⟨hdone, hfirst, hlast, ⟨hperm, haliases, hcontexts⟩, hkeys, hends⟩ := routeLast_facts
  have hsame := config_reordered plainHttpd Mconf.default 0 5 (emptyTables ⟨2, 2, 4, 2, 2⟩) none (argvOf routeFirst)
    (argvOf routeLast) routeFirst routeLast (argvOf_laysOut hfirst) (argvOf_laysOut hlast)
    ⟨hperm, haliases, hcontexts⟩ hkeys hends
  rcases hsame with ⟨⟨-, -, e, he⟩, -⟩ | ⟨hout, -, htables⟩
  · rw [hdone] at he
    cases he
  · exact ⟨hdone, hout.symm.trans hdone, htables⟩

end ModCluster
