import ModCluster.WorkerUpdate
import ModCluster.Run
import Mathlib.Data.List.Induction

/-!
# Settings of a balancer

A process that has no balancer of a name yet computes its settings from the stored
record, and one that has it patches them. What the patches leave depends on the
records the process has seen before.
-/

open CString Slotmem

namespace ModCluster

/-- What a process takes from the stored record of a balancer. -/
structure BalancerSettings where
  lbpname : Str
  stickyForce : Bool
  sticky : Str
  stickyPath : Str
  timeout : Int
  maxAttempts : Int
deriving DecidableEq

def ProxyBalancer.settings (b : ProxyBalancer) : BalancerSettings where
  lbpname := b.lbpname
  stickyForce := b.stickyForce
  sticky := b.sticky
  stickyPath := b.stickyPath
  timeout := b.timeout
  maxAttempts := b.maxAttempts

/-- A moment when the tables store `info` for the balancer. -/
structure Stored (name : Str) where
  tables : Tables
  info : Balancerinfo
  stored : readBalancerName tables name = some info

/-- Neither removed nor forced sessions, the one record whose policy is only `MC`. -/
def Balancerinfo.isPlain (v : Balancerinfo) : Bool :=
  v.stickySession && !v.stickySessionRemove && !v.stickySessionForce

/-- The policy of a record for a balancer that is created. -/
def createdLbpname (v : Balancerinfo) : Str :=
  if v.stickySessionForce then MC_NO_FAILOVER
  else if v.stickySessionRemove then MC_REMOVE_SESSION
  else if v.stickySession then MC_STICKY
  else MC_NOT_STICKY

/-- The policy of a record for a balancer that has `lbpname` and `force` already. -/
def reusedLbpname (v : Balancerinfo) (lbpname : Str) (force : Bool) : Str :=
  if !v.stickySession then MC_NOT_STICKY
  else if v.stickySessionRemove then MC_REMOVE_SESSION
  else if v.stickySessionForce then MC_NO_FAILOVER
  else if force then MC_STICKY
  else lbpname

def settingsOf (v : Balancerinfo) (lbpname : Str) : BalancerSettings where
  lbpname := lbpname
  stickyForce := v.stickySessionForce
  sticky := v.stickySessionCookie
  stickyPath := v.stickySessionPath
  timeout := v.timeout
  maxAttempts := v.maxattempts

section Steps

variable {ts : Tables} {m : Nodemess} {b : ProxyBalancer} {v : Balancerinfo}

theorem addBalancerNode_settings (h : readBalancerName ts m.balancer = some v) :
    (addBalancerNode ts m).settings = settingsOf v (createdLbpname v) := by
  unfold addBalancerNode createdLbpname
  rw [h]
  obtain ⟨id, name, sticky, cookie, path, remove, force, timeout, maxattempts, updatetime⟩ := v
  cases force <;> cases remove <;> cases sticky <;> rfl

theorem addBalancerNode_name : (addBalancerNode ts m).name = BALANCER_PREFIX ++ m.balancer := by
  unfold addBalancerNode
  split
  · rfl
  · rename_i v _
    obtain ⟨id, name, sticky, cookie, path, remove, force, timeout, maxattempts, updatetime⟩ := v
    cases force <;> cases remove <;> rfl

theorem reuseBalancer_name : (reuseBalancer ts b).name = b.name := by
  have hite : ∀ (q : Prop) (_ : Decidable q) (b b' : ProxyBalancer), b'.name = b.name →
      (if q then b' else b).name = b.name := by
    intro q _ b b' h
    split
    · exact h
    · rfl
  unfold reuseBalancer
  split
  · rfl
  · refine Eq.trans (hite _ _ _ _ rfl) ?_
    refine Eq.trans (hite _ _ _ _ rfl) ?_
    refine Eq.trans (hite _ _ _ _ rfl) ?_
    refine Eq.trans (hite _ _ _ _ rfl) ?_
    exact Eq.trans (hite _ _ _ _ rfl) (hite _ _ _ _ rfl)

theorem setLbpname_ite {c : Prop} {_ : Decidable c} {name : Str} :
    (if c ∧ b.lbpname ≠ name then setLbpname b name else b) = if c then setLbpname b name else b := by
  by_cases hc : c
  · by_cases hname : b.lbpname = name
    · rw [if_neg (fun h => h.2 hname), if_pos hc, ← hname]
      rfl
    · rw [if_pos ⟨hc, hname⟩, if_pos hc]
  · rw [if_neg (fun h => hc h.1), if_neg hc]

theorem reuseBalancer_settings (hmc : b.lbpname.take 2 = ascii "MC")
    (h : readBalancerName ts (b.name.drop BALANCER_PREFIX.length) = some v) :
    (reuseBalancer ts b).settings = settingsOf v (reusedLbpname v b.lbpname b.stickyForce) := by
  unfold reuseBalancer reusedLbpname
  rw [h]
  simp -zeta only
  extract_lets b₁ forced b₂ unforced b₃ b₄ b₅ b₆
  have h₁ : b₁ = b := if_neg (fun hne => hne hmc)
  have h₄ : b₄ = if v.stickySessionForce then setLbpname b₃ MC_NO_FAILOVER else b₃ := setLbpname_ite
  have h₅ : b₅ = if v.stickySessionRemove then setLbpname b₄ MC_REMOVE_SESSION else b₄ := setLbpname_ite
  have h₆ : b₆ = if ¬ v.stickySession then setLbpname b₅ MC_NOT_STICKY else b₅ := setLbpname_ite
  rw [h₆, h₅, h₄]
  unfold b₃ unforced b₂ forced
  rw [h₁]
  obtain ⟨id, name, sticky, cookie, path, remove, force, timeout, maxattempts, updatetime⟩ := v
  obtain ⟨bname, lbpname, bsticky, bpath, bforce, btimeout, battempts, workers⟩ := b
  cases sticky <;> cases remove <;> cases force <;> cases bforce <;> rfl

end Steps

/-! ## Histories -/

/-- The balancer of a process that created it for node `m` and has patched it since. -/
def keptBalancer (m : Nodemess) (first : Stored m.balancer) (later : List (Stored m.balancer)) : ProxyBalancer :=
  later.foldl (fun b s => reuseBalancer s.tables b) (addBalancerNode first.tables m)

/-- Of the records that were not plain, the last one forced its sessions. Once it is
gone the policy goes back to `MC`. -/
def Cleared (seen : List Balancerinfo) : Prop :=
  match seen.reverse.find? (fun v => !v.isPlain) with
  | none => True
  | some v => v.stickySessionForce = true

theorem cleared_append (seen : List Balancerinfo) (v : Balancerinfo) :
    Cleared (seen ++ [v]) ↔ if v.isPlain then Cleared seen else v.stickySessionForce = true := by
  unfold Cleared
  rw [List.reverse_append, List.reverse_singleton, List.singleton_append, List.find?_cons]
  cases v.isPlain <;> rfl

/-- What is true of the balancer of a process that has seen these records. -/
structure Patched (m : Nodemess) (seen : List Balancerinfo) (b : ProxyBalancer) : Prop where
  name : b.name = BALANCER_PREFIX ++ m.balancer
  policy : b.lbpname.take 2 = ascii "MC"
  cleared : b.stickyForce = true ∨ b.lbpname = MC_STICKY ↔ Cleared seen

section History

variable {m : Nodemess} {seen : List Balancerinfo} {b : ProxyBalancer}

theorem createdLbpname_policy (v : Balancerinfo) : (createdLbpname v).take 2 = ascii "MC" := by
  unfold createdLbpname
  split
  · rfl
  split
  · rfl
  split <;> rfl

theorem reusedLbpname_policy (v : Balancerinfo) (force : Bool) {lbpname : Str} (h : lbpname.take 2 = ascii "MC") :
    (reusedLbpname v lbpname force).take 2 = ascii "MC" := by
  unfold reusedLbpname
  split
  · rfl
  split
  · rfl
  split
  · rfl
  split
  · rfl
  · exact h

theorem createdLbpname_eq_sticky (v : Balancerinfo) :
    v.stickySessionForce = true ∨ createdLbpname v = MC_STICKY ↔ Cleared [v] := by
  have hone := cleared_append [] v
  rw [List.nil_append] at hone
  rw [hone]
  unfold createdLbpname Balancerinfo.isPlain
  obtain ⟨id, name, sticky, cookie, path, remove, force, timeout, maxattempts, updatetime⟩ := v
  cases sticky <;> cases remove <;> cases force <;> simp [Cleared] <;> decide

theorem addBalancerNode_patched (first : Stored m.balancer) :
    Patched m [first.info] (addBalancerNode first.tables m) := by
  have hsettings := addBalancerNode_settings first.stored
  have hlbpname : (addBalancerNode first.tables m).lbpname = createdLbpname first.info :=
    congrArg (·.lbpname) hsettings
  have hforce : (addBalancerNode first.tables m).stickyForce = first.info.stickySessionForce :=
    congrArg (·.stickyForce) hsettings
  refine ⟨addBalancerNode_name, ?_, ?_⟩
  · rw [hlbpname]
    exact createdLbpname_policy first.info
  · rw [hlbpname, hforce]
    exact createdLbpname_eq_sticky first.info

theorem Patched.reuse_settings (hp : Patched m seen b) (next : Stored m.balancer) :
    (reuseBalancer next.tables b).settings =
      settingsOf next.info (reusedLbpname next.info b.lbpname b.stickyForce) := by
  refine reuseBalancer_settings hp.policy ?_
  rw [hp.name, List.drop_left]
  exact next.stored

theorem Patched.reuse (hp : Patched m seen b) (next : Stored m.balancer) :
    Patched m (seen ++ [next.info]) (reuseBalancer next.tables b) := by
  have hsettings := hp.reuse_settings next
  have hlbpname : (reuseBalancer next.tables b).lbpname = reusedLbpname next.info b.lbpname b.stickyForce :=
    congrArg (·.lbpname) hsettings
  have hforce : (reuseBalancer next.tables b).stickyForce = next.info.stickySessionForce :=
    congrArg (·.stickyForce) hsettings
  refine ⟨?_, ?_, ?_⟩
  · rw [reuseBalancer_name]
    exact hp.name
  · rw [hlbpname]
    exact reusedLbpname_policy next.info b.stickyForce hp.policy
  · rw [hlbpname, hforce, cleared_append, ← hp.cleared]
    unfold reusedLbpname Balancerinfo.isPlain
    generalize next.info = v
    obtain ⟨id, name, sticky, cookie, path, remove, force, timeout, maxattempts, updatetime⟩ := v
    cases sticky <;> cases remove <;> cases force <;> cases b.stickyForce <;> simp <;> decide

theorem keptBalancer_patched (first : Stored m.balancer) (later : List (Stored m.balancer)) :
    Patched m (first.info :: later.map (·.info)) (keptBalancer m first later) := by
  induction later using List.reverseRecOn with
  | nil => exact addBalancerNode_patched first
  | append_singleton later next ih =>
    unfold keptBalancer
    rw [List.foldl_append, List.map_append, ← List.cons_append]
    exact ih.reuse next

end History

/-- A process that has seen other records before the current one agrees with one that
has not exactly when the record does not ask for two policies at once, and a plain one
does not follow a policy that nothing takes back. -/
theorem keptBalancer_agrees_iff (m m' : Nodemess) (first : Stored m.balancer) (between : List (Stored m.balancer))
    (current : Stored m.balancer) (created : Stored m'.balancer) (hsame : created.info = current.info) :
    (keptBalancer m first (between ++ [current])).settings = (addBalancerNode created.tables m').settings ↔
      (current.info.stickySessionForce = true →
        current.info.stickySession = true ∧ current.info.stickySessionRemove = false) ∧
      (current.info.stickySessionRemove = true → current.info.stickySession = true) ∧
      (current.info.isPlain = true → Cleared (first.info :: between.map (·.info))) := by
  have hp := keptBalancer_patched first between
  have hkept : (keptBalancer m first (between ++ [current])).settings = settingsOf current.info
      (reusedLbpname current.info (keptBalancer m first between).lbpname (keptBalancer m first between).stickyForce) := by
    unfold keptBalancer
    rw [List.foldl_append]
    exact hp.reuse_settings current
  rw [hkept, addBalancerNode_settings created.stored, hsame, ← hp.cleared]
  generalize keptBalancer m first between = b
  generalize current.info = v
  have hlbpname : ∀ x y, settingsOf v x = settingsOf v y ↔ x = y :=
    fun x y => ⟨fun h => congrArg (·.lbpname) h, fun h => by rw [h]⟩
  rw [hlbpname]
  unfold reusedLbpname createdLbpname Balancerinfo.isPlain
  obtain ⟨id, name, sticky, cookie, path, remove, force, timeout, maxattempts, updatetime⟩ := v
  cases sticky <;> cases remove <;> cases force <;> cases b.stickyForce <;> simp <;> decide

/-! ## A policy that stays -/

section Example

def Stored.ofTables (ts : Tables) (name : Str) (h : (readBalancerName ts name).isSome = true) : Stored name :=
  ⟨ts, (readBalancerName ts name).get h, (Option.some_get h).symm⟩

def poolNode : Nodemess := { (default : Nodemess) with balancer := ascii "mycluster" }

/-- A CONFIG that sets the two flags of the balancer. -/
def policyMessage (force remove : String) : Argv :=
  Argv.ofTokens [ascii "JVMRoute", ascii "node1", ascii "StickySessionForce", ascii force,
    ascii "StickySessionRemove", ascii remove]

def configured (ts : Tables) (argv : Argv) : Tables := (processConfig plainHttpd Mconf.default 0 ts none argv).tables

def removing : Tables := configured (emptyTables ⟨1, 1, 1, 1, 1⟩) (policyMessage "no" "yes")

def plainAgain : Tables := configured removing (policyMessage "no" "no")

def forcing : Tables := configured (emptyTables ⟨1, 1, 1, 1, 1⟩) (policyMessage "yes" "no")

def unforced : Tables := configured forcing (policyMessage "no" "no")

theorem Stored.info_of_map {α : Type} {ts : Tables} {name : Str} {f : Balancerinfo → α} {x : α}
    (h : (readBalancerName ts name).map f = some x) (hsome : (readBalancerName ts name).isSome = true) :
    f (Stored.ofTables ts name hsome).info = x := by
  rw [← Option.some_get hsome] at h
  exact Option.some.inj h

theorem unforced_facts :
    (readBalancerName forcing (ascii "mycluster")).map (fun v => (v.stickySessionForce, v.isPlain)) = some (true, false) ∧
      (readBalancerName unforced (ascii "mycluster")).map (fun v => (v.stickySessionForce, v.stickySessionRemove)) =
        some (false, false) := by
  decide +kernel

theorem unforced_agrees :
    (keptBalancer poolNode (Stored.ofTables forcing (ascii "mycluster") (by decide +kernel))
        [Stored.ofTables unforced (ascii "mycluster") (by decide +kernel)]).settings =
      (addBalancerNode unforced poolNode).settings := by
  have hforcing : (readBalancerName forcing (ascii "mycluster")).isSome = true := by
    rw [← Option.isSome_map, unforced_facts.1]
    rfl
  have hunforced : (readBalancerName unforced (ascii "mycluster")).isSome = true := by
    rw [← Option.isSome_map, unforced_facts.2]
    rfl
  obtain ⟨hforce, hplain⟩ := Prod.mk.inj (Stored.info_of_map unforced_facts.1 hforcing)
  obtain ⟨hunforce, hremove⟩ := Prod.mk.inj (Stored.info_of_map unforced_facts.2 hunforced)
  have h := keptBalancer_agrees_iff poolNode poolNode (Stored.ofTables forcing (ascii "mycluster") hforcing) []
    (Stored.ofTables unforced (ascii "mycluster") hunforced) (Stored.ofTables unforced (ascii "mycluster") hunforced) rfl
  have htables : (Stored.ofTables unforced (ascii "mycluster") hunforced).tables = unforced := rfl
  rw [List.nil_append, htables] at h
  refine h.mpr ⟨fun hforced => ?_, fun hremoved => ?_, fun _ => ?_⟩
  · rw [hunforce] at hforced
    cases hforced
  · rw [hremove] at hremoved
    cases hremoved
  · have hcleared := cleared_append [] (Stored.ofTables forcing (ascii "mycluster") hforcing).info
    rw [hplain, List.nil_append] at hcleared
    exact hcleared.mpr hforce

/-- The process that has seen the sessions removed goes on to remove them. -/
theorem removing_disagrees :
    (keptBalancer poolNode (Stored.ofTables removing (ascii "mycluster") (by decide +kernel))
        [Stored.ofTables plainAgain (ascii "mycluster") (by decide +kernel)]).settings ≠
      (addBalancerNode plainAgain poolNode).settings := by
  decide +kernel

end Example

end ModCluster
