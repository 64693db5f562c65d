import Mathlib.Logic.Relation
import ModCluster.StorageSpec

/-!
# Edits of the tables

Every change that a command or a watchdog makes to the shared tables is a run of
the edits below, each with what the code has made sure of when it makes it. What
holds in all reachable tables is proved here once per edit. The edits of a run in
which no message uses the reserved JVMRoute are the `strict` ones.
-/

open CString Slotmem Slotmem.Table

namespace ModCluster

/-! ## What the tables refer to -/

def NodeUsed (ts : Tables) (id : Int) : Prop := ∃ i n, ts.nodes.used i = some n ∧ id = i

def BalancerUsed (ts : Tables) (name : Str) : Prop :=
  ∃ i b, ts.balancers.used i = some b ∧ b.balancer = name

def HostUsed (ts : Tables) (node vhost : Int) : Prop :=
  ∃ i h, ts.hosts.used i = some h ∧ h.node = node ∧ h.vhost = vhost

/-- No host and no context belongs to node `id`. -/
def Unlinked (ts : Tables) (id : Int) : Prop :=
  (∀ j h, ts.hosts.used j = some h → h.node ≠ id) ∧ ∀ j c, ts.contexts.used j = some c → c.node ≠ id

/-! ## Edits -/

inductive Edit (strict : Prop) : Tables → Tables → Prop
  /-- The record of a slot changes, but not its id. -/
  | node {ts : Tables} (i : Nat) (n : Nodeinfo)
      (hid : n.mess.id = (ts.nodes.peek i).mess.id)
      (hremove : n.mess.remove = true →
        (ts.nodes.peek i).mess.remove = true ∨ ∃ a, ts.nodes.used i = some a)
      (hbalancer : n.mess.balancer = (ts.nodes.peek i).mess.balancer ∨ BalancerUsed ts n.mess.balancer)
      (hname : n.mess.jvmRoute = [] → (ts.nodes.peek i).mess.jvmRoute = [])
      (hroute : strict → n.mess.jvmRoute = REMOVED →
        (ts.nodes.peek i).mess.jvmRoute = REMOVED ∨ Unlinked ts i) :
      Edit strict ts { ts with nodes := ts.nodes.poke i n }
  | nodeStore {ts : Tables} (i : Nat) (n : Nodeinfo) (hlt : i < ts.nodes.size) (hid : n.mess.id = i)
      (hbalancer : BalancerUsed ts n.mess.balancer) (hname : n.mess.jvmRoute ≠ [])
      (hroute : strict → n.mess.jvmRoute ≠ REMOVED) :
      Edit strict ts { ts with nodes := ts.nodes.store i n }
  | nodeFree {ts : Tables} (i : Nat) (hunlinked : strict → Unlinked ts i) :
      Edit strict ts { ts with nodes := ts.nodes.setInuse i false }
  | host {ts : Tables} (i : Nat) (a h : Hostinfo) (hused : ts.hosts.used i = some a) (hid : h.id = a.id)
      (hkey : sameHost h a = true) :
      Edit strict ts { ts with hosts := ts.hosts.poke i h }
  | hostInsert {ts : Tables} (i : Nat) (h : Hostinfo) (hlt : i < ts.hosts.size)
      (hfree : ts.hosts.used i = none) (hid : h.id = i) (hnew : ts.hosts.first (sameHost h) = none)
      (hnode : ∃ k n, ts.nodes.used k = some n ∧ h.node = k ∧ (strict → n.mess.jvmRoute ≠ REMOVED)) :
      Edit strict ts { ts with hosts := ts.hosts.store i h }
  | hostsFree {ts : Tables} (hosts : Table Hostinfo) (p : Hostinfo → Bool)
      (hused : ∀ j, hosts.used j = (ts.hosts.used j).filter fun h => !p h)
      (hempty : ∀ j h, ts.hosts.used j = some h → p h = true →
        ∀ k c, ts.contexts.used k = some c → ¬ (c.node = h.node ∧ c.vhost = h.vhost)) :
      Edit strict ts { ts with hosts := hosts }
  | context {ts : Tables} (i : Nat) (a c : Contextinfo) (hused : ts.contexts.used i = some a)
      (hid : c.id = a.id) (hkey : sameContext c a = true) :
      Edit strict ts { ts with contexts := ts.contexts.poke i c }
  | contextInsert {ts : Tables} (i : Nat) (c : Contextinfo) (hlt : i < ts.contexts.size)
      (hfree : ts.contexts.used i = none) (hid : c.id = i) (hnew : ts.contexts.first (sameContext c) = none)
      (hhost : HostUsed ts c.node c.vhost) :
      Edit strict ts { ts with contexts := ts.contexts.store i c }
  | contextsFree {ts : Tables} (contexts : Table Contextinfo) (p : Contextinfo → Bool)
      (hused : ∀ j, contexts.used j = (ts.contexts.used j).filter fun c => !p c) :
      Edit strict ts { ts with contexts := contexts }
  /-- The hosts and contexts of a node go at once. -/
  | purge {ts : Tables} (hosts : Table Hostinfo) (contexts : Table Contextinfo) (id : Int)
      (hhosts : ∀ j, hosts.used j = (ts.hosts.used j).filter fun h => !(h.node == id))
      (hcontexts : ∀ j, contexts.used j = (ts.contexts.used j).filter fun c => !(c.node == id)) :
      Edit strict ts { ts with hosts := hosts, contexts := contexts }
  | balancer {ts : Tables} (i : Nat) (a b : Balancerinfo) (hused : ts.balancers.used i = some a)
      (hid : b.id = a.id) (hkey : b.balancer = a.balancer) :
      Edit strict ts { ts with balancers := ts.balancers.poke i b }
  | balancerInsert {ts : Tables} (i : Nat) (b : Balancerinfo) (hlt : i < ts.balancers.size)
      (hfree : ts.balancers.used i = none) (hid : b.id = i)
      (hnew : ts.balancers.first (sameBalancer b.balancer) = none) :
      Edit strict ts { ts with balancers := ts.balancers.store i b }
  | domains {ts : Tables} (domains : Table Domaininfo) : Edit strict ts { ts with domains := domains }
  | version {ts : Tables} (version : Nat) : Edit strict ts { ts with version := version }

def Edits (strict : Prop) : Tables → Tables → Prop := Relation.ReflTransGen (Edit strict)

variable {strict : Prop} {ts ts' ts'' : Tables}

theorem Edits.refl : Edits strict ts ts := Relation.ReflTransGen.refl

theorem Edits.trans (h : Edits strict ts ts') (h' : Edits strict ts' ts'') : Edits strict ts ts'' :=
  Relation.ReflTransGen.trans h h'

theorem Edit.single (h : Edit strict ts ts') : Edits strict ts ts' := Relation.ReflTransGen.single h

theorem Edits.tail (h : Edits strict ts ts') (h' : Edit strict ts' ts'') : Edits strict ts ts'' :=
  Relation.ReflTransGen.tail h h'

/-- What every edit keeps holds after a run of them. -/
theorem Edits.induct {P : Tables → Prop} (hstep : ∀ {ts ts'}, Edit strict ts ts' → P ts → P ts')
    (h : Edits strict ts ts') (hp : P ts) : P ts' := by
  induction h with
  | refl => exact hp
  | tail _ he ih => exact hstep he ih

end ModCluster
