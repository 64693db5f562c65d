import ModCluster.ConfigSpec
import ModCluster.FieldLoops
import ModCluster.Run

/-!
# The node mutex

A handler takes the global node mutex and gives it back. The checks of CONFIG give
back a mutex that nobody has taken when they refuse a message.
-/

open CString Slotmem

namespace ModCluster

/-! ## Sequences of calls -/

/-- Whether the mutex is held after the calls. `none` stands for a call out of turn. -/
def heldAfter : Bool → List LockOp → Option Bool
  | held, [] => some held
  | false, .lock :: rest => heldAfter true rest
  | true, .unlock :: rest => heldAfter false rest
  | true, .lock :: _ => none
  | false, .unlock :: _ => none

/-- The handler comes back to its caller. -/
def Outcome.returns : Outcome → Bool
  | .done | .failed _ => true
  | .aborted | .undefined => false

/-- Lock and unlock take turns, and a handler that comes back has given the mutex back. -/
def Disciplined (outcome : Outcome) (locks : List LockOp) : Prop :=
  if outcome.returns then heldAfter false locks = some false else (heldAfter false locks).isSome

theorem disciplined_of_returned {outcome : Outcome} {locks : List LockOp} (h : heldAfter false locks = some false) :
    Disciplined outcome locks := by
  unfold Disciplined
  rw [h]
  split <;> rfl

/-! ## The handlers -/

def appStatus : Method → ContextStatus
  | .enableApp => .enabled
  | .disableApp => .disabled
  | .stopApp => .stopped
  | _ => .remove

/-- The outcome of a message, and the calls of `loc_lock_nodes` and `loc_unlock_nodes`. -/
def handlerLocks (httpd : Httpd) (mconf : Mconf) (env : Surroundings) (ts : Tables) (px : Option Proxy)
    (filename : Str) (method : Method) (argv : Argv) : Outcome × List LockOp :=
  match method with
  | .config =>
    let r := processConfig httpd mconf env.now ts px argv
    (r.outcome, r.locks)
  | .status =>
    let r := processStatus httpd env ts px argv
    (r.outcome, r.locks)
  | .ping =>
    let r := processPing httpd env ts px argv
    (r.outcome, r.locks)
  | method =>
    let r := processAppCmd httpd env.now ts filename argv (appStatus method)
    (r.outcome, r.locks)

/-- The worker of the node has the slot of another node. -/
def WorkerTaken (httpd : Httpd) (ts : Tables) (px : Option Proxy) (args : ConfigArgs) : Prop :=
  (workerFound httpd ts px args).2 ≠ -1 ∧
    ¬ ((knownNode ts args).isSome ∧ workerNodeId ts.nodes (knownNode ts args) = (workerFound httpd ts px args).2) ∧
    isTaken ts.nodes (messageNode ts args).mess.jvmRoute
      (workerNode ts.nodes (knownNode ts args) (workerFound httpd ts px args).2) = true

/-- A CONFIG that can be read, and is refused because of the nodes there are. -/
def RefusedByChecks (httpd : Httpd) (mconf : Mconf) (ts : Tables) (px : Option Proxy) (method : Method)
    (argv : Argv) : Prop :=
  method = .config ∧ ∃ args, parseConfig httpd mconf argv = .ok args ∧
    (¬ Admitted ts args ∨ WorkerTaken httpd ts px args)

section Locks

variable {httpd : Httpd} {mconf : Mconf} {env : Surroundings} {ts : Tables} {px : Option Proxy} {argv : Argv}
  {args : ConfigArgs}

theorem reuseWorker_ne_fail {nodes : Table Nodeinfo} {nodeinfo : Nodeinfo} {worker : Option WorkerRef}
    {id removed : Int} {e : McmpError} : reuseWorker ts px nodes nodeinfo worker id removed ≠ .fail e := by
  unfold reuseWorker
  split
  · split
    · split
      · exact nofun
      · exact nofun
    · exact nofun
  · exact nofun

theorem checkConfig_fail_iff :
    (∃ e, checkConfig httpd ts px args = .fail e) ↔ ¬ Admitted ts args ∨ WorkerTaken httpd ts px args := by
  by_cases hadm : Admitted ts args
  swap
  · exact ⟨fun _ => Or.inl hadm, fun _ => checkConfig_denied hadm⟩
  rw [checkConfig_admitted hadm]
  unfold WorkerTaken
  by_cases hid : (workerFound httpd ts px args).2 = -1
  · rw [if_pos hid]
    refine ⟨fun ⟨e, he⟩ => ?_, fun h => ?_⟩
    · cases he
    · exact h.elim (fun h => absurd hadm h) fun h => absurd hid h.1
  rw [if_neg hid]
  split
  · rename_i hown
    refine ⟨fun ⟨e, he⟩ => ?_, fun h => ?_⟩
    · cases he
    · exact h.elim (fun h => absurd hadm h) fun h => absurd hown h.2.1
  · rename_i hown
    unfold checkWorker
    simp only
    split
    · rename_i htaken
      exact ⟨fun _ => Or.inr ⟨hid, hown, htaken⟩, fun _ => ⟨_, rfl⟩⟩
    · rename_i htaken
      refine ⟨fun ⟨e, he⟩ => absurd he reuseWorker_ne_fail, fun h => ?_⟩
      exact h.elim (fun h => absurd hadm h) fun h => absurd h.2.2 htaken

theorem commitConfig_disciplined {now : Int} {plan : Plan} :
    Disciplined (commitConfig now ts px args plan).outcome (commitConfig now ts px args plan).locks := by
  unfold commitConfig
  simp only
  split
  · exact disciplined_of_returned rfl
  split
  · exact disciplined_of_returned rfl
  split
  · exact rfl
  · exact disciplined_of_returned rfl

theorem processConfig_disciplined_iff {now : Int} :
    Disciplined (processConfig httpd mconf now ts px argv).outcome (processConfig httpd mconf now ts px argv).locks ↔
      ¬ ∃ args, parseConfig httpd mconf argv = .ok args ∧ (¬ Admitted ts args ∨ WorkerTaken httpd ts px args) := by
  unfold processConfig
  split
  · rename_i e hparse
    refine ⟨fun _ => ?_, fun _ => disciplined_of_returned rfl⟩
    rintro ⟨args, h, -⟩
    cases hparse.symm.trans h
  rename_i args hparse
  have hargs : (∃ args', Except.ok args = (Except.ok args' : Except McmpError ConfigArgs) ∧
      (¬ Admitted ts args' ∨ WorkerTaken httpd ts px args')) ↔ ∃ e, checkConfig httpd ts px args = .fail e := by
    rw [checkConfig_fail_iff]
    refine ⟨?_, fun h => ⟨args, rfl, h⟩⟩
    rintro ⟨args', heq, h⟩
    cases heq
    exact h
  rw [hparse, hargs]
  split
  · rename_i e hfail
    refine ⟨fun h => ?_, fun h => absurd ⟨e, hfail⟩ h⟩
    cases h
  · rename_i nodes habort
    refine ⟨fun _ => ?_, fun _ => rfl⟩
    rintro ⟨e, h⟩
    cases habort.symm.trans h
  · rename_i plan hgo
    refine ⟨fun _ => ?_, fun _ => commitConfig_disciplined⟩
    rintro ⟨e, h⟩
    cases hgo.symm.trans h

theorem processAppCmd_disciplined {now : Int} {filename : Str} {cmd : ContextStatus} :
    Disciplined (processAppCmd httpd now ts filename argv cmd).outcome
      (processAppCmd httpd now ts filename argv cmd).locks := by
  unfold processAppCmd
  simp only
  split
  · exact disciplined_of_returned rfl
  · exact disciplined_of_returned rfl
  split
  · exact disciplined_of_returned rfl
  split
  · exact disciplined_of_returned rfl
  split
  · exact disciplined_of_returned rfl
  · exact disciplined_of_returned rfl

theorem searchServers_held (id : Int) (i k : Nat) (servers : List Server) (ts : Tables) :
    heldAfter false (searchServers id i k servers ts).locks = some (searchServers id i k servers ts).crashed := by
  induction servers generalizing k ts with
  | nil => rfl
  | cons sv rest ih =>
    unfold searchServers
    simp only
    split
    · rfl
    · rfl
    · exact ih (k + 1) _

theorem searchServers_found {id : Int} {i k : Nat} {servers : List Server} {ts : Tables} {ref : WorkerRef}
    (h : (searchServers id i k servers ts).found = some ref) : (searchServers id i k servers ts).crashed = false := by
  induction servers generalizing k ts with
  | nil => rfl
  | cons sv rest ih =>
    unfold searchServers at h ⊢
    simp only at h ⊢
    split at h
    · rfl
    · cases h
    · exact ih h

theorem proxyNodeIsup_held {px : Proxy} {id load : Int} :
    heldAfter false (proxyNodeIsup httpd env ts px id load).locks =
      some (proxyNodeIsup httpd env ts px id load).crashed := by
  unfold proxyNodeIsup
  split
  · rfl
  rename_i i _
  split
  · rfl
  simp only
  generalize addBalancersWorkers httpd env i true px.servers ts = r
  have hheld := searchServers_held id i 0 r.2 r.1
  have hfound := @searchServers_found id i 0 r.2 r.1
  generalize searchServers id i 0 r.2 r.1 = q at hheld hfound ⊢
  split
  · exact hheld
  · rename_i ref w hbind
    obtain ⟨ref', href, -⟩ := Option.bind_eq_some_iff.1 hbind
    exact hheld.trans (congrArg some (hfound href))

theorem isnodeUp_disciplined {id load : Int} {route : Str} :
    Disciplined (isnodeUp httpd env ts px id load route).outcome (isnodeUp httpd env ts px id load route).locks := by
  unfold isnodeUp
  split
  · exact disciplined_of_returned rfl
  rename_i px
  have hheld := @proxyNodeIsup_held httpd env ts px id load
  generalize proxyNodeIsup httpd env ts px id load = r at hheld ⊢
  have hlocks : heldAfter false ([.lock, .unlock] ++ r.locks) = some r.crashed := hheld
  simp only
  split
  · exact Option.isSome_of_eq_some hlocks
  · rename_i hrun
    exact disciplined_of_returned (hlocks.trans (congrArg some (Bool.eq_false_iff.2 hrun)))

theorem processStatus_disciplined :
    Disciplined (processStatus httpd env ts px argv).outcome (processStatus httpd env ts px argv).locks := by
  unfold processStatus
  split
  · exact disciplined_of_returned rfl
  · exact disciplined_of_returned rfl
  simp only
  split
  · exact disciplined_of_returned rfl
  split
  · exact disciplined_of_returned rfl
  · exact isnodeUp_disciplined

theorem ishostUp_disciplined {route scheme host port : Str} {locks : List LockOp}
    (h : heldAfter false locks = some false) :
    Disciplined (ishostUp httpd env ts px route scheme host port locks).outcome
      (ishostUp httpd env ts px route scheme host port locks).locks := by
  unfold ishostUp
  split
  · exact disciplined_of_returned h
  · exact disciplined_of_returned h

theorem answerPing_disciplined {route : Str} {scheme host port : Option Str} {locks : List LockOp}
    (h : heldAfter false locks = some false) :
    Disciplined (answerPing httpd env ts px route scheme host port locks).outcome
      (answerPing httpd env ts px route scheme host port locks).locks := by
  unfold answerPing
  split
  · exact disciplined_of_returned h
  · exact ishostUp_disciplined h
  · exact disciplined_of_returned h

theorem processPing_disciplined :
    Disciplined (processPing httpd env ts px argv).outcome (processPing httpd env ts px argv).locks := by
  unfold processPing
  split
  · exact disciplined_of_returned rfl
  · exact disciplined_of_returned rfl
  split
  · exact answerPing_disciplined rfl
  split
  · exact disciplined_of_returned rfl
  · exact answerPing_disciplined rfl

end Locks

/-- The mutex is kept in order, except by a CONFIG that the nodes there are do not let through. -/
theorem handlerLocks_disciplined_iff (httpd : Httpd) (mconf : Mconf) (env : Surroundings) (ts : Tables)
    (px : Option Proxy) (filename : Str) (method : Method) (argv : Argv) :
    Disciplined (handlerLocks httpd mconf env ts px filename method argv).1
        (handlerLocks httpd mconf env ts px filename method argv).2 ↔
      ¬ RefusedByChecks httpd mconf ts px method argv := by
  have hother (hmethod : method ≠ .config) : ¬ RefusedByChecks httpd mconf ts px method argv :=
    fun h => hmethod h.1
  cases method with
  | config =>
    refine processConfig_disciplined_iff.trans (not_congr ?_)
    exact ⟨fun h => ⟨rfl, h⟩, fun h => h.2⟩
  | status => exact iff_of_true processStatus_disciplined (hother nofun)
  | ping => exact iff_of_true processPing_disciplined (hother nofun)
  | enableApp => exact iff_of_true processAppCmd_disciplined (hother nofun)
  | disableApp => exact iff_of_true processAppCmd_disciplined (hother nofun)
  | stopApp => exact iff_of_true processAppCmd_disciplined (hother nofun)
  | removeApp => exact iff_of_true processAppCmd_disciplined (hother nofun)

/-- The port of a node that is there does not change, and the refusal unlocks a free mutex. -/
theorem otherPort_undisciplined :
    ¬ Disciplined (handlerLocks plainHttpd Mconf.default aloneSurroundings oneNode none (ascii "/") .config
        (Argv.ofTokens [ascii "JVMRoute", ascii "n1", ascii "Port", ascii "9009"])).1
      (handlerLocks plainHttpd Mconf.default aloneSurroundings oneNode none (ascii "/") .config
        (Argv.ofTokens [ascii "JVMRoute", ascii "n1", ascii "Port", ascii "9009"])).2 := by
  have hlocks : (handlerLocks plainHttpd Mconf.default aloneSurroundings oneNode none (ascii "/") .config
      (Argv.ofTokens [ascii "JVMRoute", ascii "n1", ascii "Port", ascii "9009"])).2 = [.unlock] := by
    decide +kernel
  rw [hlocks]
  unfold Disciplined
  split <;> exact nofun

end ModCluster
