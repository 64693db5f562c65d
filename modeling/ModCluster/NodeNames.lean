import ModCluster.GuardedRuns
import ModCluster.RemovalRuns

/-!
# Names of nodes

Nothing checks directly that two slots have different JVMRoutes. It follows from the
lookups that CONFIG makes before it writes, and it fails on one way through the check
phase.
-/

open CString Slotmem Slotmem.Table

namespace ModCluster

variable {httpd : Httpd} {ts : Tables} {px : Option Proxy} {args : ConfigArgs} {now : Int}
  {m m' : Table Nodeinfo} {id : Int} {clean : Bool} {i j k : Nat} {n : Nodeinfo}

/-! ## One name, one slot -/

/-- No two nodes in use have one JVMRoute, the reserved one apart. -/
def NamesUnique (m : Table Nodeinfo) : Prop :=
  ∀ i j a b, m.used i = some a → m.used j = some b → a.mess.jvmRoute = b.mess.jvmRoute →
    a.mess.jvmRoute ≠ REMOVED → i = j

/-- The check phase gives the message's name to a slot called "REMOVED" although a slot
in use has that name: no worker was found for the node, and the other slot is the
first with its Host and Port. -/
def NamesTwice (httpd : Httpd) (ts : Tables) (px : Option Proxy) (args : ConfigArgs) : Prop :=
  Admitted ts args ∧ (workerFound httpd ts px args).2 = -1 ∧ args.node.mess.jvmRoute ≠ REMOVED ∧
    (∃ k, findNodeByhostport ts.nodes args.node.mess.host args.node.mess.port = some k ∧
      (ts.nodes.peek k).mess.jvmRoute = REMOVED) ∧
    ∃ j a, ts.nodes.used j = some a ∧ a.mess.jvmRoute = args.node.mess.jvmRoute

theorem namesUnique_empty (size : Nat) : NamesUnique (Table.empty size) := by
  intro i j a b ha
  rw [used_empty] at ha
  cases ha

theorem NamesUnique.descend (h : NamesUnique m) (hd : NodesDescend m m') : NamesUnique m' := by
  intro i j a b ha hb hab hname
  obtain ⟨a₀, ha₀, hdesc⟩ := hd i a ha
  obtain ⟨b₀, hb₀, hdesc'⟩ := hd j b hb
  have hroute : a.mess.jvmRoute = a₀.mess.jvmRoute := by
    rcases hdesc.jvmRoute with h | ⟨h, -⟩
    · exact h
    · exact absurd h hname
  have hroute' : b.mess.jvmRoute = b₀.mess.jvmRoute := by
    rcases hdesc'.jvmRoute with h | ⟨h, -⟩
    · exact h
    · exact absurd (hab.trans h) hname
  refine h i j a₀ b₀ ha₀ hb₀ ?_ ?_
  · rw [← hroute, ← hroute', hab]
  · rw [← hroute]
    exact hname

theorem NamesUnique.poke_new (h : NamesUnique m)
    (hnew : ∀ j a, m.used j = some a → a.mess.jvmRoute = n.mess.jvmRoute → n.mess.jvmRoute = REMOVED) :
    NamesUnique (m.poke k n) := by
  intro i j a b ha hb hab hname
  rcases used_of_poke ha with ⟨rfl, rfl, -⟩ | ⟨hki, ha'⟩
  · rcases used_of_poke hb with ⟨rfl, -, -⟩ | ⟨-, hb'⟩
    · rfl
    · exact absurd (hnew j b hb' hab.symm) hname
  · rcases used_of_poke hb with ⟨rfl, rfl, -⟩ | ⟨-, hb'⟩
    · exact absurd (hab.trans (hnew i a ha' hab)) hname
    · exact h i j a b ha' hb' hab hname

theorem NamesUnique.poke_same (h : NamesUnique m) {a : Nodeinfo} (ha : m.used k = some a)
    (hroute : n.mess.jvmRoute = a.mess.jvmRoute) : NamesUnique (m.poke k n) := by
  have hold {l : Nat} {b : Nodeinfo} (hb : (m.poke k n).used l = some b) :
      ∃ c, m.used l = some c ∧ c.mess.jvmRoute = b.mess.jvmRoute := by
    rcases used_of_poke hb with ⟨rfl, rfl, -⟩ | ⟨-, hb'⟩
    · exact ⟨a, ha, hroute.symm⟩
    · exact ⟨b, hb', rfl⟩
  intro i j b c hb hc hbc hname
  obtain ⟨b₀, hb₀, hr⟩ := hold hb
  obtain ⟨c₀, hc₀, hr'⟩ := hold hc
  exact h i j b₀ c₀ hb₀ hc₀ (by rw [hr, hr', hbc]) (by rw [hr]; exact hname)

theorem NamesUnique.store_new (h : NamesUnique m)
    (hnew : ∀ j a, m.used j = some a → a.mess.jvmRoute ≠ n.mess.jvmRoute) : NamesUnique (m.store k n) := by
  intro i j a b ha hb hab hname
  rcases used_of_store ha with ⟨rfl, rfl⟩ | ⟨-, ha'⟩
  · rcases used_of_store hb with ⟨rfl, -⟩ | ⟨-, hb'⟩
    · rfl
    · exact absurd hab.symm (hnew j b hb')
  · rcases used_of_store hb with ⟨rfl, rfl⟩ | ⟨-, hb'⟩
    · exact absurd hab (hnew i a ha')
    · exact h i j a b ha' hb' hab hname

theorem route_ne_of_first_none {route : Str} (h : m.first (hasRoute route) = none) {a : Nodeinfo}
    (ha : m.used j = some a) : a.mess.jvmRoute ≠ route := by
  intro hr
  have hmiss := first_eq_none.mp h j a ha
  rw [hasRoute_iff.mpr hr] at hmiss
  cases hmiss

theorem Prepared.namesUnique (hok : IdsOk ts) (h : Prepared httpd ts px args m id clean) (hadm : Admitted ts args)
    (hguard : ¬ NamesTwice httpd ts px args) (hu : NamesUnique ts.nodes) : NamesUnique m := by
  cases h with
  | revived k a hid hfirst hused hname =>
    refine hu.poke_new fun j b hb hroute => ?_
    by_contra hne
    refine hguard ⟨hadm, hid, hne, ⟨k, ?_, ?_⟩, j, b, hb, hroute⟩
    · rw [findNodeByhostport_eq hok.nodes]
      exact hfirst
    · rw [peek_of_used hused]
      exact hname
  | renamed k hid hlt hnew hname =>
    exact hu.poke_new fun j b hb hroute => absurd hroute (route_ne_of_first_none hnew hb)
  | _ => exact hu

theorem NodeStored.namesUnique (h : NodeStored now args m id clean k m') (hu : NamesUnique m) : NamesUnique m' := by
  cases h with
  | updated a s hfirst hused hstat =>
    obtain ⟨b, hb, hroute, -⟩ := first_eq_some hfirst
    rw [hused, Option.some.injEq] at hb
    subst hb
    exact hu.poke_same hused (hasRoute_iff.mp hroute).symm
  | inserted s hnew hlt hslot => exact hu.store_new fun j a ha => route_ne_of_first_none hnew ha

theorem ConfigNodes.namesUnique (hok : IdsOk ts) (h : ConfigNodes httpd ts px args now m')
    (hguard : ¬ NamesTwice httpd ts px args) (hu : NamesUnique ts.nodes) : NamesUnique m' := by
  cases h with
  | refused => exact hu
  | prepared _ id clean hadm hprep => exact hprep.namesUnique hok hadm hguard hu
  | stored m _ id clean k hadm hprep hstored => exact hstored.namesUnique (hprep.namesUnique hok hadm hguard hu)

theorem GuardedReachable.namesUnique
    (h : GuardedReachable httpd (fun ts px args => ¬ NamesTwice httpd ts px args) ts) : NamesUnique ts.nodes :=
  h.induct namesUnique_empty (fun _ _ hd hu => hu.descend hd)
    fun _ _ _ _ _ hok _ hguard hnodes hu => hnodes.namesUnique hok hguard hu

/-! ### Runs with the pairings of all processes -/

def workerUrl (m : Nodemess) : Str := m.type ++ ascii "://" ++ m.host ++ ascii ":" ++ m.port

/-- A worker of this balancer and URL was paired with this slot. -/
structure Pairing where
  balancer : Str
  url : Str
  slot : Nat
deriving DecidableEq

/-- The tables, and all pairings that any process has made. -/
structure PairedTables where
  tables : Tables
  pairings : List Pairing

/-- Some process has a worker for the node that was last paired with slot `id`, or the
process has none. -/
def PairedTables.Lookup (s : PairedTables) (m : Nodemess) (id : Int) : Prop :=
  id = -1 ∨ ∃ e ∈ s.pairings, e.balancer = m.balancer ∧ caseEq e.url (workerUrl m) = true ∧ id = e.slot

inductive PairedStep (httpd : Httpd) (guard : Guard) : PairedTables → PairedTables → Prop
  | config {s : PairedTables} (mconf : Mconf) (now : Int) (px : Option Proxy) (argv : Argv)
      (hlookup : ∀ args, parseConfig httpd mconf argv = .ok args →
        s.Lookup args.node.mess (workerFound httpd s.tables px args).2)
      (hguard : ∀ args, parseConfig httpd mconf argv = .ok args → guard s.tables px args) :
      PairedStep httpd guard s { s with tables := (processConfig httpd mconf now s.tables px argv).tables }
  /-- A process pairs its worker for the node of slot `i` with that slot. -/
  | pair {s : PairedTables} (i : Nat) (n : Nodeinfo) (hused : s.tables.nodes.used i = some n) :
      PairedStep httpd guard s { s with pairings := ⟨n.mess.balancer, workerUrl n.mess, i⟩ :: s.pairings }
  | app {s : PairedTables} (now : Int) (filename : Str) (argv : Argv) (cmd : ContextStatus) :
      PairedStep httpd guard s { s with tables := (processAppCmd httpd now s.tables filename argv cmd).tables }
  | watchdog {s : PairedTables} (wait now : Int) :
      PairedStep httpd guard s { s with tables := removeRemovedNode httpd wait now s.tables }
  | bookkeeping {s : PairedTables} (i : Nat) (a n : Nodeinfo) (hused : s.tables.nodes.used i = some a)
      (hkeep : Bookkeeping a n) :
      PairedStep httpd guard s { s with tables := { s.tables with nodes := s.tables.nodes.poke i n } }

def PairedReachable (httpd : Httpd) (guard : Guard) (s : PairedTables) : Prop :=
  ∃ sz, Relation.ReflTransGen (PairedStep httpd guard) ⟨emptyTables sz, []⟩ s

theorem PairedReachable.guarded {guard : Guard} {s : PairedTables} (h : PairedReachable httpd guard s) :
    GuardedReachable httpd guard s.tables := by
  obtain ⟨sz, h⟩ := h
  refine ⟨sz, ?_⟩
  induction h with
  | refl => exact Relation.ReflTransGen.refl
  | tail _ hstep ih =>
    cases hstep with
    | config mconf now px argv hlookup hguard => exact ih.tail (GuardedStep.config mconf now px argv hguard)
    | pair i n hused => exact ih
    | app now filename argv cmd => exact ih.tail (GuardedStep.app now filename argv cmd)
    | watchdog wait now => exact ih.tail (GuardedStep.watchdog wait now)
    | bookkeeping i a n hused hkeep => exact ih.tail (GuardedStep.bookkeeping i a n hused hkeep)

/-- As long as no CONFIG gives its name to a second slot, no name is there twice. -/
theorem reachable_namesUnique (httpd : Httpd) (s : PairedTables)
    (h : PairedReachable httpd (fun ts px args => ¬ NamesTwice httpd ts px args) s) :
    NamesUnique s.tables.nodes :=
  h.guarded.namesUnique

theorem oneNode_namesUnique :
    PairedReachable plainHttpd (fun ts px args => ¬ NamesTwice plainHttpd ts px args) ⟨oneNode, []⟩ ∧
      NamesUnique oneNode.nodes := by
  have hreach : PairedReachable plainHttpd (fun ts px args => ¬ NamesTwice plainHttpd ts px args) ⟨oneNode, []⟩ := by
    refine ⟨⟨2, 2, 2, 2, 2⟩, Relation.ReflTransGen.single (PairedStep.config Mconf.default 0 none _ ?_ ?_)⟩
    · intro args _
      exact Or.inl rfl
    · rintro args _ ⟨-, -, -, -, j, a, ha, -⟩
      have hnone : (emptyTables ⟨2, 2, 2, 2, 2⟩).nodes.used j = none := used_empty 2 j
      rw [hnone] at ha
      cases ha
  exact ⟨hreach, reachable_namesUnique plainHttpd _ hreach⟩

/-! ### A name that is given twice

Nodes "A" and "B" have one address in different balancers. A worker of one process was
paired with slot 1 when "B" was there, after "X". Both went away. Then "A" comes to
slot 0, "B" comes back to slot 1 through that worker, and "A" leaves. While slot 0 is
called "REMOVED", "B" sends its CONFIG to a process without a worker for it. -/

section Twice

def balancerConfig (route balancer port : Str) : Argv :=
  Argv.ofTokens [ascii "JVMRoute", route, ascii "Balancer", balancer, ascii "Port", port]

def PairedTables.config (s : PairedTables) (px : Proxy) (argv : Argv) : PairedTables :=
  { s with tables := (processConfig plainHttpd Mconf.default 0 s.tables (some px) argv).tables }

def PairedTables.removeApp (s : PairedTables) (route : Str) : PairedTables :=
  { s with tables := (processAppCmd plainHttpd 0 s.tables NODE_COMMAND
      (Argv.ofTokens [ascii "JVMRoute", route]) .remove).tables }

def PairedTables.walks (s : PairedTables) (now : Int) (n : Nat) : PairedTables :=
  { s with tables := (removeRemovedNode plainHttpd 10 now)^[n] s.tables }

abbrev PairedRun : PairedTables → PairedTables → Prop := Relation.ReflTransGen (PairedStep plainHttpd anyConfig)

theorem walks_pairedRun (s : PairedTables) (now : Int) (n : Nat) : PairedRun s (s.walks now n) := by
  induction n with
  | zero => exact Relation.ReflTransGen.refl
  | succ n ih =>
    have hstep := @PairedStep.watchdog plainHttpd anyConfig (s.walks now n) 10 now
    unfold PairedTables.walks at hstep ih ⊢
    rw [Function.iterate_succ_apply']
    exact ih.tail hstep

theorem removeApp_pairedRun (s : PairedTables) (route : Str) : PairedRun s (s.removeApp route) :=
  Relation.ReflTransGen.single (PairedStep.app 0 NODE_COMMAND _ .remove)

theorem noWorkers_found (ts : Tables) (args : ConfigArgs) :
    (workerFound plainHttpd ts (some noWorkers) args).2 = -1 := by
  unfold workerFound proxyNodeGetid
  simp only
  cases normalizeWorkername plainHttpd ((messageNode ts args).mess.type ++ ascii "://" ++
    (messageNode ts args).mess.host ++ ascii ":" ++ (messageNode ts args).mess.port) with
  | none => rfl
  | some _ => rfl

theorem config_pairedRun (s : PairedTables) (argv : Argv) : PairedRun s (s.config noWorkers argv) :=
  Relation.ReflTransGen.single (PairedStep.config Mconf.default 0 (some noWorkers) argv
    (fun args _ => Or.inl (noWorkers_found s.tables args)) fun _ _ => trivial)

def configB : Argv := balancerConfig (ascii "B") (ascii "b2") (ascii "8009")

/-- "X" is in slot 0 and "B" in slot 1. -/
def bothThere : PairedTables :=
  (PairedTables.config ⟨emptyTables ⟨2, 1, 1, 3, 1⟩, []⟩ noWorkers
    (balancerConfig (ascii "X") (ascii "b3") (ascii "8010"))).config noWorkers configB

/-- One process makes a worker for "B". -/
def withWorker : Tables × Server × Nat :=
  addBalancersWorkersForServer plainHttpd .all true 0 bothThere.tables ⟨[]⟩ (bothThere.tables.nodes.peek 1).mess 1

def pairedB : PairedTables where
  tables := withWorker.1
  pairings := [⟨ascii "b2", ascii "ajp://localhost:8009", 1⟩]

/-- Both leave, and the process takes its worker away. -/
def bothLeave : PairedTables := (pairedB.removeApp (ascii "X")).removeApp (ascii "B")

def workerLeaves : Tables × Server :=
  (removeWorkersNode plainHttpd 0 bothLeave.tables withWorker.2.1 1).getD (bothLeave.tables, withWorker.2.1)

def bothGone : PairedTables :=
  (PairedTables.walks { bothLeave with tables := workerLeaves.1 } 100 1).walks 200 11

def backAgain : PairedTables :=
  (bothGone.config noWorkers (balancerConfig (ascii "A") (ascii "b1") (ascii "8009"))).config ⟨[workerLeaves.2]⟩ configB

def leavingA : PairedTables := (backAgain.removeApp (ascii "A")).walks 400 1

theorem bothThere_run : PairedRun ⟨emptyTables ⟨2, 1, 1, 3, 1⟩, []⟩ bothThere :=
  (config_pairedRun _ _).trans (config_pairedRun _ _)

theorem twice_facts :
    (bothThere.tables.nodes.used 1 = some (bothThere.tables.nodes.peek 1) ∧
      (⟨(bothThere.tables.nodes.peek 1).mess.balancer, workerUrl (bothThere.tables.nodes.peek 1).mess, 1⟩ :
        Pairing) :: bothThere.pairings = [⟨ascii "b2", ascii "ajp://localhost:8009", 1⟩] ∧
      Bookkeeping (bothThere.tables.nodes.peek 1) (withWorker.1.nodes.peek 1) ∧
      { bothThere.tables with nodes := bothThere.tables.nodes.poke 1 (withWorker.1.nodes.peek 1) } = withWorker.1) ∧
    (bothLeave.tables.nodes.used 1 = some (bothLeave.tables.nodes.peek 1) ∧
      Bookkeeping (bothLeave.tables.nodes.peek 1) (workerLeaves.1.nodes.peek 1) ∧
      { bothLeave.tables with nodes := bothLeave.tables.nodes.poke 1 (workerLeaves.1.nodes.peek 1) } =
        workerLeaves.1) ∧
    (parseConfig plainHttpd Mconf.default configB).map (fun args =>
      ((workerFound plainHttpd (bothGone.config noWorkers
        (balancerConfig (ascii "A") (ascii "b1") (ascii "8009"))).tables (some ⟨[workerLeaves.2]⟩) args).2,
        args.node.mess.balancer, workerUrl args.node.mess)) =
      .ok (1, ascii "b2", ascii "ajp://localhost:8009") ∧
    ((leavingA.config noWorkers configB).tables.nodes.used 0).map (·.mess.jvmRoute) = some (ascii "B") ∧
    ((leavingA.config noWorkers configB).tables.nodes.used 1).map (·.mess.jvmRoute) = some (ascii "B") := by
  decide +kernel

theorem pairedB_run : PairedRun bothThere pairedB := by
  obtain ⟨hused, hentry, hkeep, htables⟩ := twice_facts.1
  have hpair : PairedStep plainHttpd anyConfig bothThere
      { bothThere with pairings := [⟨ascii "b2", ascii "ajp://localhost:8009", 1⟩] } := by
    have h := @PairedStep.pair plainHttpd anyConfig bothThere 1 (bothThere.tables.nodes.peek 1) hused
    rw [hentry] at h
    exact h
  have hbook := @PairedStep.bookkeeping plainHttpd anyConfig
    { bothThere with pairings := [⟨ascii "b2", ascii "ajp://localhost:8009", 1⟩] } 1 (bothThere.tables.nodes.peek 1)
    (withWorker.1.nodes.peek 1) hused hkeep
  simp only [htables] at hbook
  exact (Relation.ReflTransGen.single hpair).tail hbook

theorem bothGone_run : PairedRun pairedB bothGone := by
  obtain ⟨hused, hkeep, htables⟩ := twice_facts.2.1
  have hbook := @PairedStep.bookkeeping plainHttpd anyConfig bothLeave 1 (bothLeave.tables.nodes.peek 1)
    (workerLeaves.1.nodes.peek 1) hused hkeep
  simp only [htables] at hbook
  exact ((((removeApp_pairedRun pairedB _).trans (removeApp_pairedRun _ _)).tail hbook).trans
    (walks_pairedRun _ 100 1)).trans (walks_pairedRun _ 200 11)

theorem backAgain_run : PairedRun bothGone backAgain := by
  refine (config_pairedRun bothGone _).tail (PairedStep.config Mconf.default 0 (some ⟨[workerLeaves.2]⟩) configB
    (fun args hparse => ?_) fun _ _ => trivial)
  have hfound := twice_facts.2.2.1
  rw [hparse] at hfound
  obtain ⟨hid, hrest⟩ := Prod.mk.inj (Except.ok.inj hfound)
  obtain ⟨hbalancer, hurl⟩ := Prod.mk.inj hrest
  refine Or.inr ⟨⟨ascii "b2", ascii "ajp://localhost:8009", 1⟩, List.mem_singleton.mpr rfl, hbalancer.symm, ?_, hid⟩
  rw [hurl]
  decide

/-- Slots 0 and 1 both end up with the name "B". -/
theorem name_given_twice :
    ¬ ∀ (httpd : Httpd) (s : PairedTables), PairedReachable httpd anyConfig s → NamesUnique s.tables.nodes := by
  intro h
  have hrun : PairedRun ⟨emptyTables ⟨2, 1, 1, 3, 1⟩, []⟩ (leavingA.config noWorkers configB) :=
    ((((bothThere_run.trans pairedB_run).trans bothGone_run).trans backAgain_run).trans
      ((removeApp_pairedRun backAgain _).trans (walks_pairedRun _ 400 1))).trans (config_pairedRun leavingA _)
  have hunique := h plainHttpd _ ⟨_, hrun⟩
  obtain ⟨hfirst, hsecond⟩ := twice_facts.2.2.2
  obtain ⟨a, ha, hra⟩ := Option.map_eq_some_iff.mp hfirst
  obtain ⟨b, hb, hrb⟩ := Option.map_eq_some_iff.mp hsecond
  have hij := hunique 0 1 a b ha hb (hra.trans hrb.symm) (by rw [hra]; decide)
  cases hij

end Twice

end ModCluster
