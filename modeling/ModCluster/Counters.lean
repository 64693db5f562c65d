import ModCluster.ElectionSpec

/-!
# Counters of elections

The counters `elected` stand in the slots of the nodes and in the areas workers are
created with. An update of the workers of a process may move a worker from one area
to another, but it does not count.
-/

open CString Slotmem Slotmem.Table

namespace ModCluster

/-! ## Lists that grow -/

section Extends

variable {α : Type} {R : α → α → Prop} {l l' l'' : List α}

/-- All entries are still there, each related by `R` to the one it was. -/
def Extends (R : α → α → Prop) (l l' : List α) : Prop :=
  ∀ (k : Nat) (a : α), l[k]? = some a → ∃ a', l'[k]? = some a' ∧ R a a'

theorem Extends.refl (hR : ∀ a, R a a) : Extends R l l := fun _ a ha => ⟨a, ha, hR a⟩

theorem Extends.trans (hR : ∀ {a b c}, R a b → R b c → R a c) (h : Extends R l l') (h' : Extends R l' l'') :
    Extends R l l'' := by
  intro k a ha
  obtain ⟨b, hb, hab⟩ := h k a ha
  obtain ⟨c, hc, hbc⟩ := h' k b hb
  exact ⟨c, hc, hR hab hbc⟩

theorem Extends.append (hR : ∀ a, R a a) (added : List α) : Extends R l (l ++ added) := by
  intro k a ha
  refine ⟨a, ?_, hR a⟩
  rw [List.getElem?_append_left (List.getElem?_eq_some_iff.mp ha).1]
  exact ha

theorem Extends.set (hR : ∀ a, R a a) {k : Nat} {a b : α} (ha : l[k]? = some a) (hab : R a b) :
    Extends R l (l.set k b) := by
  intro n c hc
  rw [List.getElem?_set']
  by_cases hkn : k = n
  · subst hkn
    rw [ha] at hc
    cases hc
    exact ⟨b, by simp [ha], hab⟩
  · exact ⟨c, by rw [if_neg hkn, hc], hR c⟩

theorem Extends.cons {a b : α} (hab : R a b) (h : Extends R l l') : Extends R (a :: l) (b :: l') := by
  intro k c hc
  cases k with
  | zero =>
    cases hc
    exact ⟨b, rfl, hab⟩
  | succ k => exact h k c hc

end Extends

/-! ## Counters that stay -/

def SameOwn (w w' : Worker) : Prop := w'.priv.elected = w.priv.elected

def ProxyBalancer.SameCounts (b b' : ProxyBalancer) : Prop := Extends SameOwn b.workers b'.workers

def Server.SameCounts (sv sv' : Server) : Prop := Extends ProxyBalancer.SameCounts sv.balancers sv'.balancers

def Tables.SameCounts (ts ts' : Tables) : Prop :=
  ∀ i, (ts'.nodes.peek i).stat.elected = (ts.nodes.peek i).stat.elected

/-- No counter of an election has changed, whichever area it is in. -/
structure World.SameCounts (w w' : World) : Prop where
  slots : w.tables.SameCounts w'.tables
  own : w.server.SameCounts w'.server

theorem SameOwn.refl (w : Worker) : SameOwn w w := rfl

theorem SameOwn.trans {w w' w'' : Worker} (h : SameOwn w w') (h' : SameOwn w' w'') : SameOwn w w'' := Eq.trans h' h

theorem ProxyBalancer.SameCounts.refl (b : ProxyBalancer) : b.SameCounts b := Extends.refl SameOwn.refl

theorem ProxyBalancer.SameCounts.trans {b b' b'' : ProxyBalancer} (h : b.SameCounts b') (h' : b'.SameCounts b'') :
    b.SameCounts b'' := Extends.trans SameOwn.trans h h'

theorem ProxyBalancer.SameCounts.of_eq {b b' : ProxyBalancer} (h : b'.workers = b.workers) : b.SameCounts b' := by
  unfold ProxyBalancer.SameCounts
  rw [h]
  exact Extends.refl SameOwn.refl

theorem Server.SameCounts.refl (sv : Server) : sv.SameCounts sv := Extends.refl ProxyBalancer.SameCounts.refl

theorem Server.SameCounts.trans {sv sv' sv'' : Server} (h : sv.SameCounts sv') (h' : sv'.SameCounts sv'') :
    sv.SameCounts sv'' := Extends.trans ProxyBalancer.SameCounts.trans h h'

theorem Tables.SameCounts.refl (ts : Tables) : ts.SameCounts ts := fun _ => rfl

theorem Tables.SameCounts.trans {ts ts' ts'' : Tables} (h : ts.SameCounts ts') (h' : ts'.SameCounts ts'') :
    ts.SameCounts ts'' := fun i => (h' i).trans (h i)

theorem World.SameCounts.refl (w : World) : w.SameCounts w := ⟨Tables.SameCounts.refl _, Server.SameCounts.refl _⟩

theorem World.SameCounts.trans {w w' w'' : World} (h : w.SameCounts w') (h' : w'.SameCounts w'') :
    w.SameCounts w'' := ⟨h.slots.trans h'.slots, h.own.trans h'.own⟩

section Writes

variable {ts : Tables} {w : World} {f : WorkerShared → WorkerShared} (hf : ∀ s, (f s).elected = s.elected)
include hf

theorem pokeStat_sameCounts (i : Nat) : ts.SameCounts (pokeStat ts i f) := by
  intro n
  rcases peek_pokeStat (f := f) ts i n with h | h
  · rw [h]
  · rw [h, hf]

theorem write_sameCounts (b j : Nat) : w.SameCounts (w.write b j f) := by
  unfold World.write
  split
  swap
  · exact World.SameCounts.refl w
  rename_i worker hworker
  have hown : SameOwn worker (worker.write w.tables f).2 := by
    unfold Worker.write
    split
    · exact SameOwn.refl _
    · exact hf _
  constructor
  · simp only
    unfold Worker.write
    split
    · exact pokeStat_sameCounts hf _
    · exact Tables.SameCounts.refl _
  · simp only
    intro n balancer hb
    unfold Server.setWorker
    rw [List.getElem?_modify, hb]
    by_cases hbn : b = n
    · subst hbn
      refine ⟨balancer.setWorker j (worker.write w.tables f).2, by simp, ?_⟩
      rw [Server.worker?, hb, Option.bind_some] at hworker
      exact Extends.set SameOwn.refl hworker hown
    · exact ⟨balancer, by simp [hbn], ProxyBalancer.SameCounts.refl _⟩

end Writes

theorem Retries.sameCounts {httpd : Httpd} {w w' : World} (h : Retries httpd w w') : w.SameCounts w' := by
  induction h with
  | refl => exact World.SameCounts.refl w
  | tail _ hstep ih =>
    obtain ⟨b, j, rfl⟩ := hstep
    exact ih.trans (write_sameCounts (f := retried httpd) (fun _ => rfl) b j)

/-! ## Updates of the workers -/

section Update

variable {httpd : Httpd} {now : Int} {ts : Tables} {b : ProxyBalancer} {m : Nodemess} {i : Nat}

theorem blankArea_elected (s : WorkerShared) : (blankArea s).elected = s.elected := by
  unfold blankArea
  split <;> rfl

variable (hinit : ∀ s, (httpd.initializeWorker s).1.elected = s.elected)
include hinit

theorem createWorkerReuse_sameCounts {k : Nat} {w : Worker} (hw : b.workers[k]? = some w) :
    ts.SameCounts (createWorkerReuse httpd now ts b k w m i).1 ∧
      b.SameCounts (createWorkerReuse httpd now ts b k w m i).2.1 := by
  have hset : ∀ helper, b.SameCounts (b.setWorker k { w with s := .slot i, context := some helper }) := fun helper =>
    Extends.set SameOwn.refl hw rfl
  have hreset : ts.SameCounts (pokeStat ts i fun s => (httpd.initializeWorker (setStatus0 s)).1) :=
    pokeStat_sameCounts (f := fun s => (httpd.initializeWorker (setStatus0 s)).1) (fun s => hinit (setStatus0 s)) i
  unfold createWorkerReuse
  split
  · exact ⟨.refl _, .refl _⟩
  split
  · exact ⟨.refl _, .refl _⟩
  split
  · split
    · exact ⟨pokeStat_sameCounts (f := restartArea now m) (fun _ => rfl) i, .refl _⟩
    · exact ⟨.refl _, .refl _⟩
  · simp only
    split
    · refine ⟨hreset.trans ?_, hset _⟩
      exact pokeStat_sameCounts (f := setUpdated now ∘ setIndex m.id) (fun _ => rfl) i
    · exact ⟨hreset, hset _⟩

theorem createWorkerNew_sameCounts {shared : WorkerShared} :
    ts.SameCounts (createWorkerNew httpd now ts b shared m i).1 ∧
      b.SameCounts (createWorkerNew httpd now ts b shared m i).2.1 := by
  unfold createWorkerNew
  extract_lets b' renamed ts' ok ts''
  have hadd : b.SameCounts b' := Extends.append SameOwn.refl _
  have harrange : ts.SameCounts ts' := by
    unfold ts'
    split
    · exact pokeStat_sameCounts (f := arrangeSharedMem now m shared) (fun _ => rfl) i
    · exact .refl _
  have hready : ts.SameCounts ts'' := harrange.trans (pokeStat_sameCounts hinit i)
  split
  · have hblank : ts''.SameCounts (pokeStat ts'' i (blankArea ∘ setIndex m.id)) :=
      pokeStat_sameCounts (fun s => blankArea_elected (setIndex m.id s)) i
    exact ⟨hready.trans hblank, hadd⟩
  · exact ⟨hready, hadd⟩

theorem createWorker_sameCounts :
    ts.SameCounts (createWorker httpd now ts b m i).1 ∧ b.SameCounts (createWorker httpd now ts b m i).2.1 := by
  unfold createWorker
  split
  · exact ⟨.refl _, .refl _⟩
  split
  · rename_i k w hfound
    rw [Option.bind_eq_some_iff] at hfound
    obtain ⟨k', -, hk'⟩ := hfound
    rw [Option.map_eq_some_iff] at hk'
    obtain ⟨w', hw', heq⟩ := hk'
    cases heq
    exact createWorkerReuse_sameCounts hinit hw'
  · split
    · exact ⟨.refl _, .refl _⟩
    · exact createWorkerNew_sameCounts hinit

theorem addBalancersWorkersForServer_sameCounts {creatBal : CreatBal} {main : Bool} {sv : Server} :
    ts.SameCounts (addBalancersWorkersForServer httpd creatBal main now ts sv m i).1 ∧
      sv.SameCounts (addBalancersWorkersForServer httpd creatBal main now ts sv m i).2.1 := by
  unfold addBalancersWorkersForServer
  split
  · rename_i k b hfound
    rw [Option.bind_eq_some_iff] at hfound
    obtain ⟨k', -, hk'⟩ := hfound
    rw [Option.map_eq_some_iff] at hk'
    obtain ⟨b', hb', heq⟩ := hk'
    rw [Prod.mk.injEq] at heq
    obtain ⟨rfl, rfl⟩ := heq
    obtain ⟨hts, hworkers⟩ := createWorker_sameCounts (b := reuseBalancer ts b') (m := m)
      (i := i) hinit
    have hreuse : b'.SameCounts (reuseBalancer ts b') := .of_eq reuseBalancer_workers
    exact ⟨hts, Extends.set ProxyBalancer.SameCounts.refl hb' (hreuse.trans hworkers)⟩
  · split
    · exact ⟨.refl _, .refl _⟩
    · exact ⟨(createWorker_sameCounts hinit).1, Extends.append ProxyBalancer.SameCounts.refl _⟩

theorem updateWorkersNode_sameCounts {creatBal : CreatBal} {main : Bool} (nodes : List NodeEntry) (ts : Tables)
    (sv : Server) :
    ts.SameCounts (updateWorkersNode httpd creatBal main now nodes ts sv).1 ∧
      sv.SameCounts (updateWorkersNode httpd creatBal main now nodes ts sv).2 := by
  induction nodes generalizing ts sv with
  | nil => exact ⟨.refl _, .refl _⟩
  | cons ou rest ih =>
    unfold updateWorkersNode
    split
    · exact ih ts sv
    split
    · exact ih ts sv
    · rename_i i _
      obtain ⟨hts, hsv⟩ := addBalancersWorkersForServer_sameCounts (m := ou.info.mess)
        (i := i) hinit
      obtain ⟨hts', hsv'⟩ := ih (addBalancersWorkersForServer httpd creatBal main now ts sv ou.info.mess i).1
        (addBalancersWorkersForServer httpd creatBal main now ts sv ou.info.mess i).2.1
      exact ⟨hts.trans hts', hsv.trans hsv'⟩

omit hinit in
theorem checkWorkersOf_sameCounts {ws ws' : List Worker} (h : checkWorkersOf httpd ts ws = some ws') :
    Extends SameOwn ws ws' := by
  induction ws generalizing ws' with
  | nil => exact fun k a ha => by cases ha
  | cons w rest ih =>
    unfold checkWorkersOf at h
    split at h
    swap
    · cases h
    rename_i w' rest' hw hrest
    cases h
    refine Extends.cons ?_ (ih hrest)
    unfold checkWorkerArea at hw
    split at hw
    · cases hw
    split at hw
    · split at hw
      · cases hw
      · cases hw
        unfold SameOwn stopHcheck
        split <;> rfl
    · cases hw
      exact SameOwn.refl _

omit hinit in
theorem checkWorkers_sameCounts {sv sv' : Server} (h : checkWorkers httpd ts sv = some sv') : sv.SameCounts sv' := by
  unfold checkWorkers at h
  rw [Option.map_eq_some_iff] at h
  obtain ⟨bs, hbs, rfl⟩ := h
  unfold Server.SameCounts
  simp only
  generalize sv.balancers = l at hbs
  induction l generalizing bs with
  | nil => exact fun k a ha => by cases ha
  | cons b rest ih =>
    unfold checkBalancers at hbs
    split at hbs
    swap
    · cases hbs
    rename_i workers rest' hw hrest
    cases hbs
    exact Extends.cons (checkWorkersOf_sameCounts hw) (ih rest' hrest)

theorem refreshWorkers_sameCounts {cfg : Settings} {s : Snapshot} {turn : Turn} {w w' : World}
    (h : refreshWorkers httpd cfg s turn w = some w') : w.SameCounts w' := by
  unfold refreshWorkers at h
  rw [Option.map_eq_some_iff] at h
  obtain ⟨sv, hsv, rfl⟩ := h
  have hcheck := checkWorkers_sameCounts hsv
  by_cases hneed : turn.needUpdate = true
  · rw [if_pos hneed] at hcheck ⊢
    obtain ⟨hts, hserver⟩ := updateWorkersNode_sameCounts
      hinit s.nodes w.tables w.server
    exact ⟨hts, hserver.trans hcheck⟩
  · rw [if_neg hneed] at hcheck ⊢
    exact ⟨.refl _, hcheck⟩

end Update

end ModCluster
