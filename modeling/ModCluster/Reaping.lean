import ModCluster.GuardedRuns

/-!
# The reserved name

`remove_removed_node` frees a slot for its name alone. A slot gets that name when its
node is marked for removal, or from a message that asks for it.
-/

open CString Slotmem Slotmem.Table

namespace ModCluster

variable {httpd : Httpd} {ts : Tables} {px : Option Proxy} {args : ConfigArgs} {wait now : Int}
  {m m' : Table Nodeinfo} {id : Int} {clean : Bool} {k : Nat} {n : Nodeinfo}

/-! ## Statement -/

/-- However far a walk has come: the slot it frees next is marked for removal. -/
def ReapsMarked (httpd : Httpd) (ts : Tables) : Prop :=
  ∀ (wait now : Int) (before after : List Int) (id : Int) (i : Nat),
    getIdsUsedNode ts.nodes = before ++ id :: after →
    (removeRemovedStep httpd wait now (removeRemovedLoop httpd wait now before ts) id).2 = some (i : Int) →
    ((removeRemovedLoop httpd wait now before ts).nodes.peek i).mess.remove = true

/-- A message with the reserved name is refused. -/
def NotReserved (ts : Tables) (args : ConfigArgs) : Prop :=
  Admitted ts args → args.node.mess.jvmRoute ≠ REMOVED

/-! ## The invariant -/

/-- The nodes in use that have the reserved name are marked. -/
def RemovedMarked (m : Table Nodeinfo) : Prop :=
  ∀ i n, m.used i = some n → n.mess.jvmRoute = REMOVED → n.mess.remove = true

theorem RemovedMarked.descend (h : RemovedMarked m) (hd : NodesDescend m m') : RemovedMarked m' := by
  intro i n hn hname
  obtain ⟨a, ha, hdesc⟩ := hd i n hn
  rcases hdesc.jvmRoute with hroute | ⟨-, hremove⟩
  · exact hdesc.remove (h i a ha (hroute.symm.trans hname))
  · exact hremove

theorem RemovedMarked.poke (h : RemovedMarked m) (hroute : n.mess.jvmRoute ≠ REMOVED) : RemovedMarked (m.poke k n) := by
  intro i a ha hname
  rcases used_of_poke ha with ⟨-, rfl, -⟩ | ⟨-, ha'⟩
  · exact absurd hname hroute
  · exact h i a ha' hname

theorem RemovedMarked.store (h : RemovedMarked m) (hroute : n.mess.jvmRoute ≠ REMOVED) :
    RemovedMarked (m.store k n) := by
  intro i a ha hname
  rcases used_of_store ha with ⟨-, rfl⟩ | ⟨-, ha'⟩
  · exact absurd hname hroute
  · exact h i a ha' hname

theorem ConfigNodes.removedMarked (h : ConfigNodes httpd ts px args now m') (hguard : NotReserved ts args)
    (hu : RemovedMarked ts.nodes) : RemovedMarked m' := by
  have hprepared {m : Table Nodeinfo} {id : Int} {clean : Bool} (hadm : Admitted ts args)
      (hprep : Prepared httpd ts px args m id clean) : RemovedMarked m := by
    cases hprep with
    | revived l a hid hfirst hused hname => exact hu.poke (hguard hadm)
    | renamed l hid hlt hnew hname => exact hu.poke (hguard hadm)
    | _ => exact hu
  cases h with
  | refused => exact hu
  | prepared _ id clean hadm hprep => exact hprepared hadm hprep
  | stored m _ id clean k hadm hprep hstored =>
    have hm := hprepared hadm hprep
    cases hstored with
    | updated a s hfirst hused hstat => exact hm.poke (hguard hadm)
    | inserted s hnew hlt hslot => exact hm.store (hguard hadm)

/-! ## The walk -/

theorem RemovedMarked.reapsMarked (h : RemovedMarked ts.nodes) (hok : IdsOk ts) : ReapsMarked httpd ts := by
  intro wait now before after id i hids hfree
  rw [getIdsUsedNode_eq] at hids
  have hused := idsUsed_records hok.nodes
  rw [hids] at hused
  obtain ⟨hok', hused', hd⟩ := @removeRemovedLoop_rest httpd ts wait now before _ hok hused
  obtain ⟨j, n, hn, rfl⟩ := hused'.used id (by simp)
  have hwalk := @removeRemovedStep_walk httpd _ now wait _ _ hok' hn
  rw [hfree] at hwalk
  generalize (removeRemovedStep httpd wait now (removeRemovedLoop httpd wait now before ts) j).1.nodes = m' at hwalk
  cases hwalk with
  | freed n' hroute hcount hold hzero =>
    rw [peek_of_used hn]
    exact (h.descend hd) _ n hn hold

/-- As long as no message with the reserved name is accepted, only marked slots are
freed. -/
theorem reachable_reapsMarked (httpd : Httpd) (ts : Tables)
    (h : GuardedReachable httpd (fun ts _ args => NotReserved ts args) ts) : ReapsMarked httpd ts := by
  have hmarked : RemovedMarked ts.nodes := by
    refine h.induct ?_ (fun m m' hd hu => hu.descend hd) ?_
    · intro size i a ha
      rw [used_empty] at ha
      cases ha
    · intro ts px args now m' hok hargs hguard hnodes hu
      exact hnodes.removedMarked hguard hu
  exact hmarked.reapsMarked h.reachable.idsOk

/-- A node that has left, before the walk that frees its slot. -/
def leftNode : Tables :=
  (removeRemovedNode plainHttpd 10 200)^[10] (removeRemovedNode plainHttpd 10 100
    (processAppCmd plainHttpd 0 oneNode NODE_COMMAND (Argv.ofTokens [ascii "JVMRoute", ascii "n1"]) .remove).tables)

theorem leftNode_facts :
    (removeRemovedStep plainHttpd 10 200 leftNode 0).2 = some 0 ∧
      (parseConfig plainHttpd Mconf.default (Argv.ofTokens [ascii "JVMRoute", ascii "n1", ascii "Alias", ascii "host1",
        ascii "Context", ascii "/app"])).map (·.node.mess.jvmRoute) = .ok (ascii "n1") ∧
      getIdsUsedNode leftNode.nodes = [] ++ 0 :: [] := by
  decide +kernel

theorem leftNode_reapsMarked :
    (removeRemovedStep plainHttpd 10 200 leftNode 0).2 = some 0 ∧ (leftNode.nodes.peek 0).mess.remove = true := by
  obtain ⟨hfree, hname, hids⟩ := leftNode_facts
  have hreserved : ∀ args, parseConfig plainHttpd Mconf.default (Argv.ofTokens [ascii "JVMRoute", ascii "n1",
      ascii "Alias", ascii "host1", ascii "Context", ascii "/app"]) = .ok args →
      NotReserved (emptyTables ⟨2, 2, 2, 2, 2⟩) args := by
    intro args hparse _
    rw [hparse] at hname
    have hroute : args.node.mess.jvmRoute = ascii "n1" := Except.ok.inj hname
    rw [hroute]
    decide
  have hconfig : GuardedStep plainHttpd (fun ts _ args => NotReserved ts args) (emptyTables ⟨2, 2, 2, 2, 2⟩) oneNode :=
    GuardedStep.config _ _ _ _ hreserved
  have happ := @GuardedStep.app plainHttpd (fun ts _ args => NotReserved ts args) oneNode 0 NODE_COMMAND
    (Argv.ofTokens [ascii "JVMRoute", ascii "n1"]) .remove
  have hreach : GuardedReachable plainHttpd (fun ts _ args => NotReserved ts args) leftNode :=
    GuardedReachable.walks (GuardedReachable.walks ⟨_, (Relation.ReflTransGen.single hconfig).tail happ⟩ 10 100 1) 10 200 10
  exact ⟨hfree, reachable_reapsMarked plainHttpd leftNode hreach 10 200 [] [] 0 0 hids hfree⟩

/-- A node that has registered under the reserved name. -/
def namedRemoved : Tables :=
  (processConfig plainHttpd Mconf.default 0 (emptyTables ⟨1, 1, 1, 1, 1⟩) none
    (Argv.ofTokens [ascii "JVMRoute", REMOVED])).tables

/-- It has been walked over ten times. -/
def walkedRemoved : Tables := (removeRemovedNode plainHttpd 10 200)^[10] namedRemoved

theorem walkedRemoved_facts :
    getIdsUsedNode walkedRemoved.nodes = [] ++ 0 :: [] ∧ (removeRemovedStep plainHttpd 10 200 walkedRemoved 0).2 = some 0 ∧
      (walkedRemoved.nodes.peek 0).mess.remove = false := by
  decide +kernel

/-- It is freed by the eleventh walk. -/
theorem registered_node_reaped :
    ¬ ∀ (httpd : Httpd) (ts : Tables), GuardedReachable httpd anyConfig ts → ReapsMarked httpd ts := by
  intro h
  obtain ⟨hids, hfree, hunmarked⟩ := walkedRemoved_facts
  have hconfig : GuardedStep plainHttpd anyConfig (emptyTables ⟨1, 1, 1, 1, 1⟩) namedRemoved :=
    GuardedStep.config _ _ _ _ fun _ _ => trivial
  have hreach : GuardedReachable plainHttpd anyConfig walkedRemoved :=
    GuardedReachable.walks ⟨_, Relation.ReflTransGen.single hconfig⟩ 10 200 10
  have hmarked : (walkedRemoved.nodes.peek 0).mess.remove = true := h plainHttpd _ hreach 10 200 [] [] 0 0 hids hfree
  rw [hunmarked] at hmarked
  cases hmarked

example : getIdsUsedNode (removeRemovedNode plainHttpd 10 200 walkedRemoved).nodes = [] := by decide +kernel

end ModCluster
