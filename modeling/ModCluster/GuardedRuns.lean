import ModCluster.NodeTable
import ModCluster.Removal

/-!
# Runs with a condition on CONFIG

Only CONFIG gives names and addresses to slots. Application commands, watchdogs and the
proxy modules keep what a node is, or give it the reserved name when it is marked for
removal.
-/

open CString Slotmem Slotmem.Table

namespace ModCluster

/-! ## What becomes of a record -/

/-- The record `n` is what has become of `a` in its slot. -/
structure Descends (a n : Nodeinfo) : Prop where
  host : n.mess.host = a.mess.host
  port : n.mess.port = a.mess.port
  remove : a.mess.remove = true → n.mess.remove = true
  jvmRoute : n.mess.jvmRoute = a.mess.jvmRoute ∨ n.mess.jvmRoute = REMOVED ∧ n.mess.remove = true

theorem Descends.refl (a : Nodeinfo) : Descends a a := ⟨rfl, rfl, id, Or.inl rfl⟩

theorem Descends.trans {a b c : Nodeinfo} (h : Descends a b) (h' : Descends b c) : Descends a c := by
  refine ⟨h'.host.trans h.host, h'.port.trans h.port, h'.remove ∘ h.remove, ?_⟩
  rcases h'.jvmRoute with hroute | hremoved
  · rcases h.jvmRoute with hab | ⟨hb, hremove⟩
    · exact Or.inl (hroute.trans hab)
    · exact Or.inr ⟨hroute.trans hb, h'.remove hremove⟩
  · exact Or.inr hremoved

/-- Every node in use descends from the node that was in its slot before. -/
def NodesDescend (m m' : Table Nodeinfo) : Prop :=
  ∀ i n, m'.used i = some n → ∃ a, m.used i = some a ∧ Descends a n

section Tables

variable {m m' m'' : Table Nodeinfo} {i : Nat} {a n : Nodeinfo}

theorem NodesDescend.refl : NodesDescend m m := fun _ n hn => ⟨n, hn, Descends.refl n⟩

theorem NodesDescend.trans (h : NodesDescend m m') (h' : NodesDescend m' m'') : NodesDescend m m'' := by
  intro i n hn
  obtain ⟨b, hb, hbn⟩ := h' i n hn
  obtain ⟨a, ha, hab⟩ := h i b hb
  exact ⟨a, ha, hab.trans hbn⟩

theorem NodesDescend.poke (ha : m.used i = some a) (h : Descends a n) : NodesDescend m (m.poke i n) := by
  intro j b hb
  rcases used_of_poke hb with ⟨rfl, rfl, -⟩ | ⟨-, hb⟩
  · exact ⟨a, ha, h⟩
  · exact ⟨b, hb, Descends.refl b⟩

theorem NodesDescend.free : NodesDescend m (m.setInuse i false) := by
  intro j b hb
  exact ⟨b, (used_of_free hb).2, Descends.refl b⟩

end Tables

/-! ## The steps that are no CONFIG -/

variable {httpd : Httpd} {ts ts' : Tables} {wait now : Int} {i : Nat} {n : Nodeinfo}

theorem processAppCmd_descend (httpd : Httpd) (now : Int) (filename : Str) (argv : Argv) (cmd : ContextStatus)
    (hok : IdsOk ts) : NodesDescend ts.nodes (processAppCmd httpd now ts filename argv cmd).tables.nodes := by
  unfold processAppCmd
  simp only
  split
  · exact NodesDescend.refl
  · exact NodesDescend.refl
  rename_i args hparse
  cases hf : ts.nodes.first (hasRoute args.jvmRoute) with
  | none =>
    rw [readNode_none rfl hf]
    exact NodesDescend.refl
  | some i =>
    obtain ⟨a, ha, hr, -⟩ := first_eq_some hf
    have hra : a.mess.jvmRoute = args.jvmRoute := hasRoute_iff.mp hr
    rw [readNode_some hok.nodes rfl hf]
    simp only
    split
    · exact NodesDescend.refl
    split
    · simp only [processNodeCmd]
      split
      · exact NodesDescend.refl
      split
      · simp only [nodeCmdHosts_nodes]
        have hmark := @removeMark_eq now ((incVersionNode ts).nodes) _ _ (hra ▸ hf) ha
        rw [hmark]
        exact NodesDescend.poke ha ⟨rfl, rfl, fun _ => rfl, Or.inl rfl⟩
      · rw [nodeCmdHosts_nodes]
        exact NodesDescend.refl
    · rw [appAliases_nodes]
      exact NodesDescend.refl

theorem removeRemovedStep_descend (hok : IdsOk ts) (hn : ts.nodes.used i = some n) :
    NodesDescend ts.nodes (removeRemovedStep httpd wait now ts i).1.nodes := by
  have hd : getNode ts.nodes (i : Int) = some i := dptr_ofNat (used_lt hn)
  have hid : n.mess.id = i := hok.nodes i n hn
  simp only [removeRemovedStep, hd, peek_of_used hn]
  split
  · split
    · exact NodesDescend.poke hn ⟨rfl, rfl, id, Or.inl rfl⟩
    · have hbump : NodesDescend ts.nodes (ts.nodes.poke i (bumpRemoveCheck n)) :=
        NodesDescend.poke hn ⟨rfl, rfl, id, Or.inl rfl⟩
      split
      · simp only [removeNode, hid, release_ofNat]
        exact hbump.trans NodesDescend.free
      · exact hbump
  split
  · rename_i hremove
    simp only [locRemoveHostContext_nodes]
    exact NodesDescend.poke hn ⟨rfl, rfl, id, Or.inr ⟨rfl, hremove.1⟩⟩
  · exact NodesDescend.refl

/-- Where a walk stands after its first nodes. -/
theorem removeRemovedLoop_rest (before : List Int) {after : List Int} (hok : IdsOk ts)
    (hids : IdsUsed ts.nodes (before ++ after)) :
    IdsOk (removeRemovedLoop httpd wait now before ts) ∧
      IdsUsed (removeRemovedLoop httpd wait now before ts).nodes after ∧
      NodesDescend ts.nodes (removeRemovedLoop httpd wait now before ts).nodes := by
  induction before generalizing ts with
  | nil => exact ⟨hok, hids, NodesDescend.refl⟩
  | cons id before ih =>
    obtain ⟨i, n, hn, rfl⟩ := hids.used id (by simp)
    have he := @removeRemovedStep_edits False _ wait now httpd _ _ hok False.elim hn
    obtain ⟨hok', hids', hd⟩ := ih (he.idsOk hok) (removeRemovedStep_idsUsed hok hn hids)
    exact ⟨hok', hids', (removeRemovedStep_descend hok hn).trans hd⟩

theorem removeRemovedNode_descend (httpd : Httpd) (wait now : Int) (hok : IdsOk ts) :
    NodesDescend ts.nodes (removeRemovedNode httpd wait now ts).nodes := by
  unfold removeRemovedNode
  rw [getIdsUsedNode_eq]
  refine (@removeRemovedLoop_rest httpd _ wait now _ [] hok ?_).2.2
  rw [List.append_nil]
  exact idsUsed_records hok.nodes

theorem lbRemoveStep_descend (id : Int) : NodesDescend ts.nodes (lbRemoveStep wait now ts id).nodes := by
  unfold lbRemoveStep
  split
  · exact NodesDescend.refl
  simp only
  split
  · simp only [locRemoveHostContext_nodes, removeNode, release]
    split
    · exact NodesDescend.free
    · exact NodesDescend.refl
  · exact NodesDescend.refl

theorem lbRemoveRemovedNode_descend (nodeTable : List Int) :
    NodesDescend ts.nodes (lbRemoveRemovedNode wait now nodeTable ts).nodes := by
  induction nodeTable generalizing ts with
  | nil => exact NodesDescend.refl
  | cons id ids ih => exact (lbRemoveStep_descend id).trans ih

/-! ## Runs -/

/-- A condition on a CONFIG: the tables it meets, the workers of its process, and what
its message says. -/
abbrev Guard := Tables → Option Proxy → ConfigArgs → Prop

/-- Any CONFIG may come. -/
def anyConfig : Guard := fun _ _ _ => True

inductive GuardedStep (httpd : Httpd) (guard : Guard) : Tables → Tables → Prop
  | config {ts : Tables} (mconf : Mconf) (now : Int) (px : Option Proxy) (argv : Argv)
      (hguard : ∀ args, parseConfig httpd mconf argv = .ok args → guard ts px args) :
      GuardedStep httpd guard ts (processConfig httpd mconf now ts px argv).tables
  | app {ts : Tables} (now : Int) (filename : Str) (argv : Argv) (cmd : ContextStatus) :
      GuardedStep httpd guard ts (processAppCmd httpd now ts filename argv cmd).tables
  | watchdog {ts : Tables} (wait now : Int) : GuardedStep httpd guard ts (removeRemovedNode httpd wait now ts)
  | lbWatchdog {ts : Tables} (wait now : Int) (nodeTable : List Int) :
      GuardedStep httpd guard ts (lbRemoveRemovedNode wait now nodeTable ts)
  | bookkeeping {ts : Tables} (i : Nat) (a n : Nodeinfo) (hused : ts.nodes.used i = some a)
      (hkeep : Bookkeeping a n) : GuardedStep httpd guard ts { ts with nodes := ts.nodes.poke i n }

def GuardedReachable (httpd : Httpd) (guard : Guard) (ts : Tables) : Prop :=
  ∃ sz, Relation.ReflTransGen (GuardedStep httpd guard) (emptyTables sz) ts

section Runs

variable {guard : Guard}

theorem GuardedStep.step (h : GuardedStep httpd guard ts ts') : Step httpd False ts ts' := by
  cases h with
  | config mconf now px argv hguard => exact Step.config mconf now px argv False.elim
  | app now filename argv cmd => exact Step.app now filename argv cmd False.elim
  | watchdog wait now => exact Step.watchdog wait now
  | lbWatchdog wait now nodeTable => exact Step.lbWatchdog wait now nodeTable
  | bookkeeping i a n hused hkeep => exact Step.bookkeeping i a n hused hkeep

theorem GuardedReachable.reachable (h : GuardedReachable httpd guard ts) : Reachable httpd False ts := by
  obtain ⟨sz, h⟩ := h
  exact ⟨sz, Relation.ReflTransGen.mono (fun _ _ hstep => GuardedStep.step hstep) _ _ h⟩

theorem GuardedStep.cases (hok : IdsOk ts) (h : GuardedStep httpd guard ts ts') :
    NodesDescend ts.nodes ts'.nodes ∨
    ∃ px args now, ArgsOk args ∧ guard ts px args ∧ ConfigNodes httpd ts px args now ts'.nodes := by
  cases h with
  | config mconf now px argv hguard =>
    cases hparse : parseConfig httpd mconf argv with
    | error e =>
      left
      rw [processConfig_unread hparse]
      exact NodesDescend.refl
    | ok args =>
      exact Or.inr ⟨px, args, now, parseConfig_argsOk hparse, hguard args hparse, processConfig_nodes hok hparse⟩
  | app now filename argv cmd => exact Or.inl (processAppCmd_descend httpd now filename argv cmd hok)
  | watchdog wait now => exact Or.inl (removeRemovedNode_descend httpd wait now hok)
  | lbWatchdog wait now nodeTable => exact Or.inl (lbRemoveRemovedNode_descend nodeTable)
  | bookkeeping i a n hused hkeep =>
    exact Or.inl (NodesDescend.poke hused ⟨hkeep.host, hkeep.port, hkeep.remove, Or.inl hkeep.jvmRoute⟩)

/-- What holds of empty nodes, is kept by descent and by guarded CONFIGs, holds in
every run. -/
theorem GuardedReachable.induct {P : Table Nodeinfo → Prop} (h : GuardedReachable httpd guard ts)
    (hempty : ∀ size, P (Table.empty size)) (hdescend : ∀ m m', NodesDescend m m' → P m → P m')
    (hconfig : ∀ ts px args now m', IdsOk ts → ArgsOk args → guard ts px args →
      ConfigNodes httpd ts px args now m' → P ts.nodes → P m') : P ts.nodes := by
  obtain ⟨sz, h⟩ := h
  suffices hinv : Reachable httpd False ts ∧ P ts.nodes from hinv.2
  induction h with
  | refl => exact ⟨Reachable.empty sz, hempty sz.nodes⟩
  | tail _ hstep ih =>
    obtain ⟨hreach, hp⟩ := ih
    refine ⟨hreach.step hstep.step, ?_⟩
    rcases hstep.cases hreach.idsOk with hd | ⟨px, args, now, hargs, hguard, hnodes⟩
    · exact hdescend _ _ hd hp
    · exact hconfig _ px args now _ hreach.idsOk hargs hguard hnodes hp

end Runs

theorem GuardedReachable.walks {guard : Guard} (h : GuardedReachable httpd guard ts) (wait now : Int) (n : Nat) :
    GuardedReachable httpd guard ((removeRemovedNode httpd wait now)^[n] ts) := by
  induction n with
  | zero => exact h
  | succ n ih =>
    obtain ⟨sz, ih⟩ := ih
    rw [Function.iterate_succ_apply']
    exact ⟨sz, ih.tail (GuardedStep.watchdog wait now)⟩

end ModCluster
