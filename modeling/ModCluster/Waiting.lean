import ModCluster.BalancerSettings
import ModCluster.FieldValues
import ModCluster.RoutingSafety

/-!
# Waiting for a worker

`find_best_worker` tries again in steps of a hundredth of the balancer's timeout. CONFIG
sends the timeout in seconds, and it is stored as microseconds in an `int`. A timeout of
64 microseconds is left when all but the last bits are lost, and its hundredth is 0.
-/

open CString Slotmem

namespace ModCluster

/-! ## Tries -/

section Tries

variable (httpd : Httpd) (cfg : Settings) (s : Snapshot) (b : Nat) (turns : Nat → Turn) (domain : Option Str)
  (failoverdomain : Bool)

/-- The next try, after what others have done meanwhile. -/
def tryAgain (k : Nat) (h : Handling) : Handling × Found :=
  internalFindBestByrequests httpd cfg s b (turns k) domain failoverdomain
    { h with world := (turns k).others h.world }

/-- After `n` tries. -/
def afterTries (h : Handling) : Nat → Handling
  | 0 => h
  | n + 1 => (tryAgain httpd cfg s b turns domain failoverdomain (n + 1) (afterTries h n)).1

/-- No try finds a worker. -/
def NeverAvailable (h : Handling) : Prop :=
  ∀ n, (tryAgain httpd cfg s b turns domain failoverdomain (n + 1)
    (afterTries httpd cfg s b turns domain failoverdomain h n)).2 = .missing

variable {httpd cfg s b turns domain failoverdomain} {h : Handling} {timeout step tval : Int}

theorem waitLoop_next (hnever : NeverAvailable httpd cfg s b turns domain failoverdomain h) (fuel n : Nat)
    (hlt : tval < timeout) :
    waitLoop httpd cfg s b turns domain failoverdomain timeout step (fuel + 1) (n + 1) tval
        (afterTries httpd cfg s b turns domain failoverdomain h n) =
      waitLoop httpd cfg s b turns domain failoverdomain timeout step fuel (n + 2) (tval + step)
        (afterTries httpd cfg s b turns domain failoverdomain h (n + 1)) := by
  have hmissing := hnever n
  rw [waitLoop, if_pos hlt, afterTries]
  unfold tryAgain at hmissing ⊢
  split
  · rename_i heq
    rw [heq]
  · rename_i hother
    exact (hother _ (Prod.ext rfl hmissing)).elim

theorem waitLoop_ends (hnever : NeverAvailable httpd cfg s b turns domain failoverdomain h) (m : Nat) {fuel n : Nat}
    (hfuel : m < fuel) (hm : timeout ≤ tval + m * step) :
    (waitLoop httpd cfg s b turns domain failoverdomain timeout step fuel (n + 1) tval
      (afterTries httpd cfg s b turns domain failoverdomain h n)).2 = .missing := by
  induction m generalizing fuel n tval with
  | zero =>
    obtain ⟨fuel, rfl⟩ : ∃ k, fuel = k + 1 := ⟨fuel - 1, by omega⟩
    have hle : ¬ tval < timeout := by simpa using hm
    rw [waitLoop, if_neg hle]
  | succ m ih =>
    obtain ⟨fuel, rfl⟩ : ∃ k, fuel = k + 1 := ⟨fuel - 1, by omega⟩
    by_cases hlt : tval < timeout
    · rw [waitLoop_next hnever fuel n hlt]
      apply ih (by omega)
      rw [Int.natCast_succ, Int.add_mul, Int.one_mul] at hm
      omega
    · rw [waitLoop, if_neg hlt]

theorem waitLoop_runs (hnever : NeverAvailable httpd cfg s b turns domain failoverdomain h) (fuel : Nat) {n : Nat}
    (hlt : tval < timeout) :
    (waitLoop httpd cfg s b turns domain failoverdomain timeout 0 fuel (n + 1) tval
      (afterTries httpd cfg s b turns domain failoverdomain h n)).2 = .running := by
  induction fuel generalizing n with
  | zero => rw [waitLoop]
  | succ fuel ih =>
    rw [waitLoop_next hnever fuel n hlt, Int.add_zero]
    exact ih

end Tries

/-! ## The timeout of a balancer -/

/-- What `WaitWorker` becomes. -/
def waitTimeout (v : Str) : Int := toInt32 (atoi v * 1000000)

theorem waitTimeout_small (n : Int) :
    (0 < toInt32 (n * 1000000) ∧ (toInt32 (n * 1000000)).tdiv 100 = 0) ↔ n % 2 ^ 26 = 12738873 := by
  have hsmall : ∀ t : Int, 0 < t → (t.tdiv 100 = 0 ↔ t < 100) := by
    intro t ht
    rw [Int.tdiv_eq_ediv_of_nonneg (by omega)]
    omega
  constructor
  · rintro ⟨hpos, hstep⟩
    have hlt := (hsmall _ hpos).1 hstep
    unfold toInt32 at hpos hlt
    rw [Int.bmod_def] at hpos hlt
    omega
  · intro hn
    have h64 : toInt32 (n * 1000000) = 64 := by
      unfold toInt32
      rw [Int.bmod_def]
      omega
    rw [h64]
    decide

theorem steps_lt {timeout : Int} (hstep : 0 < timeout → timeout.tdiv 100 ≠ 0) :
    timeout ≤ 0 + ((199 : Nat) : Int) * timeout.tdiv 100 ∨ timeout ≤ 0 := by
  by_cases hpos : 0 < timeout
  · have hne := hstep hpos
    rw [Int.tdiv_eq_ediv_of_nonneg (by omega)] at hne ⊢
    omega
  · omega

theorem processConfigBalancer_wait {key : Nat} {st : Parsing}
    (hkey : caseEq (strAt st.mem key) (ascii "WaitWorker") = true) (val : Nat) :
    processConfigBalancer key val st =
      .ok (setBalancer st fun b => { b with timeout := waitTimeout (strAt st.mem val) }) := by
  have hfind : (balancerHandlers.find? fun h => caseEq (strAt st.mem key) h.1) =
      balancerHandlers.find? fun h => caseEq (ascii "WaitWorker") h.1 := by
    congr 1
    funext h
    exact caseEq_congr hkey h.1
  unfold processConfigBalancer runHandler
  rw [hfind]
  rfl

theorem addBalancerNode_timeout {ts : Tables} {m : Nodemess} {v : Balancerinfo}
    (h : readBalancerName ts m.balancer = some v) : (addBalancerNode ts m).timeout = v.timeout :=
  congrArg BalancerSettings.timeout (addBalancerNode_settings h)

/-- A CONFIG has set the timeout of the balancer's record to `value`, the balancer was made
from the record, and a request finds no worker, now or later. -/
structure Waits (httpd : Httpd) (cfg : Settings) (s : Snapshot) (b : Nat) (turns : Nat → Turn) (domain : Option Str)
    (failoverdomain : Bool) (h h' : Handling) (balancer : ProxyBalancer) (value : Str) : Prop where
  config : ∃ key val st st', caseEq (strAt st.mem key) (ascii "WaitWorker") = true ∧ strAt st.mem val = value ∧
    processConfigBalancer key val st = .ok st' ∧
    ∃ ts m v, readBalancerName ts m.balancer = some v ∧ v.timeout = st'.balancer.timeout ∧
      balancer.timeout = (addBalancerNode ts m).timeout
  first : internalFindBestByrequests httpd cfg s b (turns 0) domain failoverdomain h = (h', .missing)
  balancer : h'.world.server.balancers[b]? = some balancer
  never : NeverAvailable httpd cfg s b turns domain failoverdomain h'

section Waits

variable {httpd : Httpd} {cfg : Settings} {s : Snapshot} {b : Nat} {turns : Nat → Turn} {domain : Option Str}
  {failoverdomain : Bool} {h h' : Handling} {balancer : ProxyBalancer} {value : Str}

theorem Waits.timeout (hw : Waits httpd cfg s b turns domain failoverdomain h h' balancer value) :
    balancer.timeout = waitTimeout value := by
  obtain ⟨key, val, st, st', hkey, rfl, hset, ts, m, v, hread, hv, hcopied⟩ := hw.config
  rw [processConfigBalancer_wait hkey] at hset
  cases hset
  rw [hcopied, addBalancerNode_timeout hread, hv]
  rfl

theorem Waits.find (hw : Waits httpd cfg s b turns domain failoverdomain h h' balancer value) (fuel : Nat) :
    findBestWorker httpd cfg s b turns fuel domain failoverdomain h =
      if balancer.timeout ≠ 0 then
        waitLoop httpd cfg s b turns domain failoverdomain balancer.timeout (balancer.timeout.tdiv 100) fuel 1 0 h'
      else (h', .missing) := by
  simp only [findBestWorker, hw.first, hw.balancer]

theorem Waits.ends (hw : Waits httpd cfg s b turns domain failoverdomain h h' balancer value)
    (hstep : 0 < balancer.timeout → balancer.timeout.tdiv 100 ≠ 0) :
    (findBestWorker httpd cfg s b turns 200 domain failoverdomain h).2 = .missing := by
  rw [hw.find]
  split
  · rcases steps_lt hstep with hlast | hnone
    · exact waitLoop_ends hw.never 199 (by omega) hlast
    · exact waitLoop_ends hw.never 0 (by omega) (by omega)
  · rfl

theorem Waits.runs (hw : Waits httpd cfg s b turns domain failoverdomain h h' balancer value)
    (hpos : 0 < balancer.timeout) (hstep : balancer.timeout.tdiv 100 = 0) (fuel : Nat) :
    (findBestWorker httpd cfg s b turns fuel domain failoverdomain h).2 = .running := by
  rw [hw.find, if_pos (by omega), hstep]
  exact waitLoop_runs hw.never fuel hpos

end Waits

/-- A request that never finds a worker gives up in fewer than 200 tries exactly when the
number of seconds is not the one whose microseconds come down to 64. With that number it
tries for ever. -/
theorem wait_ends_iff (httpd : Httpd) (cfg : Settings) (s : Snapshot) (b : Nat) (turns : Nat → Turn)
    (domain : Option Str) (failoverdomain : Bool) (h h' : Handling) (balancer : ProxyBalancer) (value : Str)
    (hw : Waits httpd cfg s b turns domain failoverdomain h h' balancer value) :
    ((0 < balancer.timeout → balancer.timeout.tdiv 100 ≠ 0) ∧
        (findBestWorker httpd cfg s b turns 200 domain failoverdomain h).2 = .missing ↔
      atoi value % 2 ^ 26 ≠ 12738873) ∧
    (atoi value % 2 ^ 26 = 12738873 → ∀ fuel,
      (findBestWorker httpd cfg s b turns fuel domain failoverdomain h).2 = .running) := by
  have hsmall := waitTimeout_small (atoi value)
  rw [show toInt32 (atoi value * 1000000) = balancer.timeout from hw.timeout.symm] at hsmall
  refine ⟨⟨fun ⟨hstep, _⟩ hbad => ?_, fun hgood => ?_⟩, fun hbad fuel => ?_⟩
  · obtain ⟨hpos, hzero⟩ := hsmall.2 hbad
    exact hstep hpos hzero
  · have hstep : 0 < balancer.timeout → balancer.timeout.tdiv 100 ≠ 0 :=
      fun hpos hzero => hgood (hsmall.1 ⟨hpos, hzero⟩)
    exact ⟨hstep, hw.ends hstep⟩
  · obtain ⟨hpos, hzero⟩ := hsmall.2 hbad
    exact hw.runs hpos hzero fuel

section Example

/-- A node that comes with `WaitWorker`. -/
def waitTables (value : Str) : Tables :=
  (processConfig plainHttpd Mconf.default 0 (emptyTables ⟨1, 1, 1, 1, 1⟩) none
    (Argv.ofTokens [ascii "JVMRoute", ascii "node1", ascii "WaitWorker", value])).tables

def waitNode : Nodemess := { (default : Nodemess) with balancer := ascii "mycluster" }

def waitBalancer (value : Str) : ProxyBalancer := addBalancerNode (waitTables value) waitNode

def waitField (value : Str) : Parsing where
  mem := ascii "WaitWorker" ++ [0] ++ value ++ [0]
  node := default
  balancer := default
  contexts := []
  aliases := []

def cacheSharing : Settings := { aliased with cacheShareFor := true }

def noContexts : Snapshot := ⟨[], [], [], List.nodup_nil⟩

/-- No context serves the request. -/
def waitRequest (value : Str) : Handling := ⟨⟨waitTables value, ⟨[waitBalancer value]⟩⟩, sessionR0⟩

theorem waitRequest_missing (value : Str) :
    internalFindBestByrequests plainHttpd cacheSharing noContexts 0 quiet none false (waitRequest value) =
      (waitRequest value, .missing) := rfl

theorem waitRequest_never (value : Str) :
    NeverAvailable plainHttpd cacheSharing noContexts 0 (fun _ => quiet) none false (waitRequest value) := by
  have hafter : ∀ n, afterTries plainHttpd cacheSharing noContexts 0 (fun _ => quiet) none false (waitRequest value) n =
      waitRequest value := by
    intro n
    induction n with
    | zero => rfl
    | succ n ih =>
      rw [afterTries, ih]
      exact congrArg Prod.fst (waitRequest_missing value)
  intro n
  rw [hafter]
  exact congrArg Prod.snd (waitRequest_missing value)

/-- CONFIG stores this value. -/
def Stores (value : Str) : Prop :=
  (caseEq (strAt (waitField value).mem 0) (ascii "WaitWorker") = true ∧ strAt (waitField value).mem 11 = value) ∧
    (readBalancerName (waitTables value) waitNode.balancer).map (·.timeout) = some (waitTimeout value)

instance (value : Str) : Decidable (Stores value) := inferInstanceAs (Decidable (_ ∧ _))

theorem waitRequest_waits {value : Str} (hstores : Stores value) :
    Waits plainHttpd cacheSharing noContexts 0 (fun _ => quiet) none false (waitRequest value) (waitRequest value)
      (waitBalancer value) value := by
  obtain ⟨hvalue, hstored⟩ := hstores
  obtain ⟨v, hread, hv⟩ := Option.map_eq_some_iff.1 hstored
  have hset := processConfigBalancer_wait hvalue.1 11
  rw [hvalue.2] at hset
  exact ⟨⟨0, 11, waitField value, _, hvalue.1, hvalue.2, hset, waitTables value, waitNode, v, hread, hv, rfl⟩,
    waitRequest_missing value, rfl, waitRequest_never value⟩

/-- One second. -/
theorem one_second_ends :
    (findBestWorker plainHttpd cacheSharing noContexts 0 (fun _ => quiet) 200 none false
      (waitRequest (ascii "1"))).2 = .missing := by
  have hfacts : Stores (ascii "1") ∧ atoi (ascii "1") % 2 ^ 26 ≠ 12738873 := by decide +kernel
  exact ((wait_ends_iff plainHttpd cacheSharing noContexts 0 (fun _ => quiet) none false _ _ _ _
    (waitRequest_waits hfacts.1)).1.2 hfacts.2).2

/-- 12738873 seconds are stored as 64 microseconds, a hundredth of which is 0. -/
theorem wait_without_steps :
    ¬ ∀ (httpd : Httpd) (cfg : Settings) (s : Snapshot) (b : Nat) (turns : Nat → Turn) (domain : Option Str)
      (failoverdomain : Bool) (h h' : Handling) (balancer : ProxyBalancer) (value : Str),
      Waits httpd cfg s b turns domain failoverdomain h h' balancer value →
        (0 < balancer.timeout → balancer.timeout.tdiv 100 ≠ 0) ∧
          (findBestWorker httpd cfg s b turns 200 domain failoverdomain h).2 = .missing := by
  intro h
  have hfacts : Stores (ascii "12738873") ∧ (waitBalancer (ascii "12738873")).timeout = 64 := by decide +kernel
  obtain ⟨hstep, -⟩ := h _ _ _ _ _ _ _ _ _ _ _ (waitRequest_waits hfacts.1)
  rw [hfacts.2] at hstep
  exact hstep (by decide) (by decide)

end Example

end ModCluster
