import ModCluster.Receive

/-!
# The configuration of a server

The directives of mod_manager, and how the configuration of the main server is merged
into that of a virtual host. Every field is merged alike: the virtual host has its own
value if that is not the default, else the one of the main server. The maximum message
size is not merged at all.
-/

open CString

namespace ModCluster

/-! ## Merging one value -/

/-- The second value if it was set, else the first. -/
def mergeField {α : Type} [DecidableEq α] (unset first second : α) : α :=
  if second ≠ unset then second else if first ≠ unset then first else unset

section Field

variable {α : Type} [DecidableEq α] (unset a b c : α)

@[simp]
theorem mergeField_unset_left : mergeField unset unset a = a := by
  unfold mergeField
  split
  · rfl
  · rename_i h
    rw [if_neg (not_not_intro rfl)]
    exact (not_not.mp h).symm

@[simp]
theorem mergeField_unset_right : mergeField unset a unset = a := by
  unfold mergeField
  rw [if_neg (not_not_intro rfl)]
  split
  · rfl
  · rename_i h
    exact (not_not.mp h).symm

theorem mergeField_assoc : mergeField unset (mergeField unset a b) c = mergeField unset a (mergeField unset b c) := by
  by_cases hc : c = unset
  · subst hc
    rw [mergeField_unset_right, mergeField_unset_right]
  · have hbc : mergeField unset b c = c := if_pos hc
    have hleft : mergeField unset (mergeField unset a b) c = c := if_pos hc
    have hright : mergeField unset a c = c := if_pos hc
    rw [hbc, hleft, hright]

end Field

/-! ## Configurations -/

def DEFMAXCONTEXT : UInt32 := 100
def DEFMAXNODE : UInt32 := 20
def DEFMAXHOST : UInt32 := 20
def DEFMAXSESSIONID : UInt32 := 0

/-- `mod_manager_config` without `tableversion`, which no directive sets. -/
structure ManagerConfig where
  basefilename : Option Str
  maxcontext : UInt32
  maxnode : UInt32
  maxhost : UInt32
  maxsessionid : UInt32
  persistent : Int
  nonce : Int
  balancername : Option Str
  allowDisplay : Int
  allowCmd : Int
  reduceDisplay : Int
  maxmesssize : Int
  enableMcmpReceive : Int
  enableWsTunnel : Int
  wsUpgradeHeader : Option Str
  ajpSecret : Option Str
  responseFieldSize : Int
deriving DecidableEq

/-- The memory of a new configuration is zeroed, so `maxmesssize` is 0. -/
def createManagerConfig : ManagerConfig where
  basefilename := none
  maxcontext := DEFMAXCONTEXT
  maxnode := DEFMAXNODE
  maxhost := DEFMAXHOST
  maxsessionid := DEFMAXSESSIONID
  persistent := 0
  nonce := -1
  balancername := none
  allowDisplay := 0
  allowCmd := -1
  reduceDisplay := 0
  maxmesssize := 0
  enableMcmpReceive := 0
  enableWsTunnel := 0
  wsUpgradeHeader := none
  ajpSecret := none
  responseFieldSize := 0

def mergeManagerServerConfig (mconf1 mconf2 : ManagerConfig) : ManagerConfig where
  basefilename := mergeField none mconf1.basefilename mconf2.basefilename
  maxcontext := mergeField DEFMAXCONTEXT mconf1.maxcontext mconf2.maxcontext
  maxnode := mergeField DEFMAXNODE mconf1.maxnode mconf2.maxnode
  maxhost := mergeField DEFMAXHOST mconf1.maxhost mconf2.maxhost
  maxsessionid := mergeField DEFMAXSESSIONID mconf1.maxsessionid mconf2.maxsessionid
  persistent := mergeField 0 mconf1.persistent mconf2.persistent
  nonce := mergeField (-1) mconf1.nonce mconf2.nonce
  balancername := mergeField none mconf1.balancername mconf2.balancername
  allowDisplay := mergeField 0 mconf1.allowDisplay mconf2.allowDisplay
  allowCmd := mergeField (-1) mconf1.allowCmd mconf2.allowCmd
  reduceDisplay := mergeField 0 mconf1.reduceDisplay mconf2.reduceDisplay
  -- Neither of the two is looked at.
  maxmesssize := createManagerConfig.maxmesssize
  enableMcmpReceive := mergeField 0 mconf1.enableMcmpReceive mconf2.enableMcmpReceive
  enableWsTunnel := mergeField 0 mconf1.enableWsTunnel mconf2.enableWsTunnel
  wsUpgradeHeader := mergeField none mconf1.wsUpgradeHeader mconf2.wsUpgradeHeader
  ajpSecret := mergeField none mconf1.ajpSecret mconf2.ajpSecret
  responseFieldSize := mergeField 0 mconf1.responseFieldSize mconf2.responseFieldSize

/-! ## Directives -/

/-- What httpd knows about the place of a directive. -/
structure CmdParms where
  /-- `ap_check_cmd_context(cmd, GLOBAL_ONLY)`. -/
  contextError : Option String
  isVirtual : Bool
  /-- The directive and those beside it. -/
  directives : List Str

/-- The part of httpd that the directives call. -/
structure ConfigHttpd where
  serverRootRelative : Str → Option Str
  dirMakeRecursive : Option Str → Bool
  findLinkedModule : Str → Bool
  /-- `PROXY_WORKER_MAX_SCHEME_SIZE`. -/
  schemeSize : Nat
  /-- `PROXY_WORKER_MAX_SECRET_SIZE`. -/
  secretSize : Nat

def HUGE_STRING_LEN : Int := 8192

/-- `atol`, for a `long` of 64 bits. -/
def atol (s : Str) : Int :=
  match s.dropWhile isSpace with
  | 45 :: rest => clampLong (-(digits 0 rest : Int))
  | 43 :: rest => clampLong (digits 0 rest)
  | rest => clampLong (digits 0 rest)

/-- A number as an `unsigned` holds it. -/
def toUnsigned (n : Int) : UInt32 := UInt32.ofInt n

section Commands

variable (e : ConfigHttpd) (cmd : CmdParms) (mconf : ManagerConfig)

/-- Directives that stand outside of all sections only. -/
def globalOnly (next : Except String ManagerConfig) : Except String ManagerConfig :=
  match cmd.contextError with
  | some err => .error err
  | none => next

/-- Directives that are on or off. -/
def cmdBoolean (arg : Str) (set : Int → ManagerConfig) (err : String) : Except String ManagerConfig :=
  match processBooleanParameter arg with
  | some true => .ok (set 1)
  | some false => .ok (set 0)
  | none => .error err

/-- Directives that need another module. -/
def cmdNeeds (name : Str) (next : ManagerConfig) (err : String) : Except String ManagerConfig :=
  if e.findLinkedModule name then .ok next else .error err

def cmdManagerMaxcontext (word : Str) : Except String ManagerConfig :=
  globalOnly cmd (.ok { mconf with maxcontext := toUnsigned (atoi word) })

def cmdManagerMaxnode (word : Str) : Except String ManagerConfig :=
  globalOnly cmd (.ok { mconf with maxnode := toUnsigned (atoi word) })

def cmdManagerMaxhost (word : Str) : Except String ManagerConfig :=
  globalOnly cmd (.ok { mconf with maxhost := toUnsigned (atoi word) })

def cmdManagerMaxsessionid (word : Str) : Except String ManagerConfig :=
  globalOnly cmd (.ok { mconf with maxsessionid := toUnsigned (atoi word) })

def cmdManagerMemmanagerfile (word : Str) : Except String ManagerConfig :=
  globalOnly cmd
    (if e.dirMakeRecursive (e.serverRootRelative word) then
      .ok { mconf with basefilename := e.serverRootRelative word }
    else .error "Can't create directory corresponding to MemManagerFile")

def cmdManagerBalancername (word : Str) : Except String ManagerConfig :=
  .ok { mconf with balancername := some (lower word) }

def cmdManagerPers (arg : Str) : Except String ManagerConfig :=
  globalOnly cmd (cmdBoolean arg ({ mconf with persistent := · }) "PersistSlots must be one of: off | on")

def cmdManagerNonce (arg : Str) : Except String ManagerConfig :=
  cmdBoolean arg ({ mconf with nonce := · }) "CheckNonce must be one of: off | on"

def cmdManagerAllowDisplay (arg : Str) : Except String ManagerConfig :=
  cmdBoolean arg ({ mconf with allowDisplay := · }) "AllowDisplay must be one of: off | on"

def cmdManagerAllowCmd (arg : Str) : Except String ManagerConfig :=
  cmdBoolean arg ({ mconf with allowCmd := · }) "AllowCmd must be one of: off | on"

def cmdManagerReduceDisplay (arg : Str) : Except String ManagerConfig :=
  cmdBoolean arg ({ mconf with reduceDisplay := · }) "ReduceDisplay must be one of: off | on"

def cmdManagerSetMaxmesssize (word : Str) : Except String ManagerConfig :=
  globalOnly cmd
    (match cmdManagerMaxmesssize word with
    | some size => .ok { mconf with maxmesssize := size }
    | none => .error "MaxMCMPMessSize must bigger than 1024")

def cmdManagerEnableMcmpReceive : Except String ManagerConfig :=
  if !cmd.isVirtual then .error "EnableMCMPReceive must be in a VirtualHost"
  else if ascii "<Directory" ∈ cmd.directives then
    .error "Directory cannot be used with EnableMCMPReceive, use Location instead"
  else .ok { mconf with enableMcmpReceive := 1 }

def cmdManagerEnableWsTunnel : Except String ManagerConfig :=
  globalOnly cmd
    (cmdNeeds e (ascii "mod_proxy_http.c") { mconf with enableWsTunnel := 1 } "EnableWsTunnel requires mod_proxy_http.c")

def cmdManagerWsUpgradeHeader (word : Str) : Except String ManagerConfig :=
  globalOnly cmd
    (if word.length ≥ e.schemeSize then
      .error ("upgrade protocol length must be < " ++ toString e.schemeSize ++ " characters")
    else
      cmdNeeds e (ascii "mod_proxy_http.c") { mconf with enableWsTunnel := 1, wsUpgradeHeader := some word }
        "WSUpgradeHeader requires mod_proxy_http.c")

def cmdManagerAjpSecret (word : Str) : Except String ManagerConfig :=
  globalOnly cmd
    (if word.length ≥ e.secretSize then
      .error ("AJP secret length must be < " ++ toString e.secretSize ++ " characters")
    else
      cmdNeeds e (ascii "mod_proxy_ajp.c") { mconf with ajpSecret := some word } "AJPsecret requires mod_proxy_ajp.c")

def cmdManagerResponsefieldsize (word : Str) : Except String ManagerConfig :=
  globalOnly cmd
    (if atol word < 0 then
      .error "ResponseFieldSize must be greater than 0 bytes, or 0 for system default."
    else
      cmdNeeds e (ascii "mod_proxy_http.c")
        { mconf with responseFieldSize := if atol word ≠ 0 then atol word else HUGE_STRING_LEN }
        "ResponseFieldSize requires mod_proxy_http.c")

end Commands

/-- The table of directives. -/
inductive Directive where
  | maxcontext (word : Str)
  | maxnode (word : Str)
  | maxhost (word : Str)
  | maxsessionid (word : Str)
  | memManagerFile (word : Str)
  | managerBalancerName (word : Str)
  | persistSlots (arg : Str)
  | checkNonce (arg : Str)
  | allowDisplay (arg : Str)
  | allowCmd (arg : Str)
  | reduceDisplay (arg : Str)
  | maxMCMPMessSize (word : Str)
  | enableMCMPReceive
  /-- The misspelled name only logs a warning before. -/
  | enableMCPMReceive
  | enableWsTunnel
  | wsUpgradeHeader (word : Str)
  | ajpSecret (word : Str)
  | responseFieldSize (word : Str)

def Directive.run (e : ConfigHttpd) (cmd : CmdParms) (mconf : ManagerConfig) : Directive → Except String ManagerConfig
  | .maxcontext word => cmdManagerMaxcontext cmd mconf word
  | .maxnode word => cmdManagerMaxnode cmd mconf word
  | .maxhost word => cmdManagerMaxhost cmd mconf word
  | .maxsessionid word => cmdManagerMaxsessionid cmd mconf word
  | .memManagerFile word => cmdManagerMemmanagerfile e cmd mconf word
  | .managerBalancerName word => cmdManagerBalancername mconf word
  | .persistSlots arg => cmdManagerPers cmd mconf arg
  | .checkNonce arg => cmdManagerNonce mconf arg
  | .allowDisplay arg => cmdManagerAllowDisplay mconf arg
  | .allowCmd arg => cmdManagerAllowCmd mconf arg
  | .reduceDisplay arg => cmdManagerReduceDisplay mconf arg
  | .maxMCMPMessSize word => cmdManagerSetMaxmesssize cmd mconf word
  | .enableMCMPReceive => cmdManagerEnableMcmpReceive cmd mconf
  | .enableMCPMReceive => cmdManagerEnableMcmpReceive cmd mconf
  | .enableWsTunnel => cmdManagerEnableWsTunnel e cmd mconf
  | .wsUpgradeHeader word => cmdManagerWsUpgradeHeader e cmd mconf word
  | .ajpSecret word => cmdManagerAjpSecret e cmd mconf word
  | .responseFieldSize word => cmdManagerResponsefieldsize e cmd mconf word

/-- The directives of a server, one after the other. httpd does not start when one of
them fails. -/
def configure (e : ConfigHttpd) (ds : List (CmdParms × Directive)) (mconf : ManagerConfig) :
    Except String ManagerConfig :=
  ds.foldlM (fun mconf d => d.2.run e d.1 mconf) mconf

/-! ## What a directive leaves alone -/

def Directive.setsMaxmesssize : Directive → Bool
  | .maxMCMPMessSize _ => true
  | _ => false

variable {e : ConfigHttpd} {cmd : CmdParms} {mconf mconf' : ManagerConfig}

theorem globalOnly_ok {next : Except String ManagerConfig} (h : globalOnly cmd next = .ok mconf') : next = .ok mconf' := by
  unfold globalOnly at h
  split at h
  · cases h
  · exact h

theorem cmdBoolean_ok {arg : Str} {set : Int → ManagerConfig} {err : String}
    (h : cmdBoolean arg set err = .ok mconf') : ∃ v, mconf' = set v := by
  unfold cmdBoolean at h
  split at h
  · exact ⟨1, (Except.ok.inj h).symm⟩
  · exact ⟨0, (Except.ok.inj h).symm⟩
  · cases h

theorem cmdNeeds_ok {name : Str} {next : ManagerConfig} {err : String} (h : cmdNeeds e name next err = .ok mconf') :
    mconf' = next := by
  unfold cmdNeeds at h
  split at h
  · exact (Except.ok.inj h).symm
  · cases h

theorem Directive.run_maxmesssize {d : Directive} (h : d.run e cmd mconf = .ok mconf') :
    if d.setsMaxmesssize then 1024 ≤ mconf'.maxmesssize else mconf'.maxmesssize = mconf.maxmesssize := by
  cases d with
  | maxcontext word | maxnode word | maxhost word | maxsessionid word =>
    cases globalOnly_ok h
    rfl
  | memManagerFile word =>
    have h := globalOnly_ok h
    split at h
    · cases h
      rfl
    · cases h
  | managerBalancerName word =>
    cases h
    rfl
  | persistSlots arg =>
    obtain ⟨v, rfl⟩ := cmdBoolean_ok (globalOnly_ok h)
    rfl
  | checkNonce arg | allowDisplay arg | allowCmd arg | reduceDisplay arg =>
    simp only [Directive.run, cmdManagerNonce, cmdManagerAllowDisplay, cmdManagerAllowCmd,
      cmdManagerReduceDisplay] at h
    obtain ⟨v, rfl⟩ := cmdBoolean_ok h
    rfl
  | maxMCMPMessSize word =>
    have h := globalOnly_ok h
    unfold cmdManagerMaxmesssize at h
    simp only at h
    by_cases hsmall : atoi word < MAXMESSSIZE
    · rw [if_pos hsmall] at h
      cases h
    · rw [if_neg hsmall] at h
      cases h
      exact Int.not_lt.mp hsmall
  | enableMCMPReceive | enableMCPMReceive =>
    simp only [Directive.run, cmdManagerEnableMcmpReceive] at h
    split at h
    · cases h
    split at h
    · cases h
    cases h
    rfl
  | enableWsTunnel =>
    rw [cmdNeeds_ok (globalOnly_ok h)]
    rfl
  | wsUpgradeHeader word | ajpSecret word | responseFieldSize word =>
    have h := globalOnly_ok h
    split at h
    · cases h
    rw [cmdNeeds_ok h]
    rfl

theorem configure_maxmesssize {ds : List (CmdParms × Directive)} (h : configure e ds mconf = .ok mconf')
    (hsize : 0 ≤ mconf.maxmesssize) :
    0 ≤ mconf'.maxmesssize ∧
      (mconf'.maxmesssize = 0 ↔ mconf.maxmesssize = 0 ∧ ∀ d ∈ ds, d.2.setsMaxmesssize = false) := by
  induction ds generalizing mconf with
  | nil =>
    cases h
    exact ⟨hsize, fun h => ⟨h, List.forall_mem_nil _⟩, fun h => h.1⟩
  | cons d ds ih =>
    unfold configure at h
    rw [List.foldlM_cons] at h
    cases hrun : d.2.run e d.1 mconf with
    | error err =>
      rw [hrun] at h
      cases h
    | ok mid =>
      rw [hrun] at h
      have hmid := Directive.run_maxmesssize hrun
      rw [List.forall_mem_cons]
      cases hsets : d.2.setsMaxmesssize with
      | true =>
        rw [hsets, if_pos rfl] at hmid
        obtain ⟨hpos, hiff⟩ := ih h (by omega)
        refine ⟨hpos, fun hzero => ?_, fun hd => absurd hd.2.1 (by decide)⟩
        have := (hiff.mp hzero).1
        omega
      | false =>
        rw [hsets, if_neg Bool.false_ne_true] at hmid
        obtain ⟨hpos, hiff⟩ := ih h (by rw [hmid]; exact hsize)
        rw [hmid] at hiff
        refine ⟨hpos, ?_⟩
        rw [hiff]
        exact ⟨fun hd => ⟨hd.1, rfl, hd.2⟩, fun hd => ⟨hd.1, hd.2.2⟩⟩

/-! ## The laws of merging -/

/-- The default configuration is neutral on both sides of `a`, and the order in which
three are merged does not matter. -/
def MergesLawfully (a b c : ManagerConfig) : Prop :=
  mergeManagerServerConfig createManagerConfig a = a ∧ mergeManagerServerConfig a createManagerConfig = a ∧
    mergeManagerServerConfig (mergeManagerServerConfig a b) c = mergeManagerServerConfig a (mergeManagerServerConfig b c)

theorem merge_default_left (a : ManagerConfig) :
    mergeManagerServerConfig createManagerConfig a = { a with maxmesssize := 0 } := by
  unfold mergeManagerServerConfig createManagerConfig
  simp only [mergeField_unset_left]

theorem merge_default_right (a : ManagerConfig) :
    mergeManagerServerConfig a createManagerConfig = { a with maxmesssize := 0 } := by
  unfold mergeManagerServerConfig createManagerConfig
  simp only [mergeField_unset_right]

theorem merge_assoc (a b c : ManagerConfig) :
    mergeManagerServerConfig (mergeManagerServerConfig a b) c =
      mergeManagerServerConfig a (mergeManagerServerConfig b c) := by
  unfold mergeManagerServerConfig
  simp only [mergeField_assoc]

/-- Configurations are merged lawfully when no directive has set the maximum message
size, and only then. -/
theorem mergesLawfully_iff (e : ConfigHttpd) (ds : List (CmdParms × Directive)) (a b c : ManagerConfig)
    (ha : configure e ds createManagerConfig = .ok a) :
    MergesLawfully a b c ↔ ∀ d ∈ ds, d.2.setsMaxmesssize = false := by
  obtain ⟨-, hsize⟩ := configure_maxmesssize ha (Int.le_refl 0)
  have hzero : a.maxmesssize = 0 ↔ ∀ d ∈ ds, d.2.setsMaxmesssize = false := by
    rw [hsize]
    exact and_iff_right rfl
  rw [← hzero]
  constructor
  · rintro ⟨hleft, -, -⟩
    rw [merge_default_left] at hleft
    exact (congrArg (·.maxmesssize) hleft).symm
  · intro hnone
    have hsame : { a with maxmesssize := 0 } = a := by rw [← hnone]
    exact ⟨(merge_default_left a).trans hsame, (merge_default_right a).trans hsame, merge_assoc a b c⟩

section Example

def plainConfigHttpd : ConfigHttpd where
  serverRootRelative word := some (ascii "/etc/httpd/" ++ word)
  dirMakeRecursive _ := true
  findLinkedModule _ := true
  schemeSize := 16
  secretSize := 64

/-- Outside of all sections. -/
def mainServer : CmdParms := ⟨none, false, []⟩

def inVirtualHost : CmdParms := ⟨some "cannot occur within <VirtualHost> section", true, []⟩

def mainDirectives : List (CmdParms × Directive) :=
  [(mainServer, .maxnode (ascii "40")), (mainServer, .checkNonce (ascii "off"))]

def hostDirectives : List (CmdParms × Directive) := [(inVirtualHost, .enableMCMPReceive)]

theorem directives_merge_lawfully :
    ∃ a b c, configure plainConfigHttpd mainDirectives createManagerConfig = .ok a ∧
      configure plainConfigHttpd hostDirectives createManagerConfig = .ok b ∧
      configure plainConfigHttpd [] createManagerConfig = .ok c ∧ MergesLawfully a b c := by
  have hmain : configure plainConfigHttpd mainDirectives createManagerConfig =
      .ok { createManagerConfig with maxnode := 40, nonce := 0 } := by
    decide +kernel
  have hhost : configure plainConfigHttpd hostDirectives createManagerConfig =
      .ok { createManagerConfig with enableMcmpReceive := 1 } := rfl
  refine ⟨_, _, _, hmain, hhost, rfl, ?_⟩
  refine (mergesLawfully_iff plainConfigHttpd mainDirectives _ _ _ hmain).mpr ?_
  decide

/-- A virtual host that sets nothing loses the size that the main server has. -/
theorem maxmesssize_not_merged :
    ¬ ∀ (e : ConfigHttpd) (as bs cs : List (CmdParms × Directive)) (a b c : ManagerConfig),
      configure e as createManagerConfig = .ok a → configure e bs createManagerConfig = .ok b →
        configure e cs createManagerConfig = .ok c → MergesLawfully a b c := by
  intro h
  have hconfig : configure plainConfigHttpd [(mainServer, .maxMCMPMessSize (ascii "4096"))] createManagerConfig =
      .ok { createManagerConfig with maxmesssize := 4096 } := by
    decide +kernel
  have hlaw := (h plainConfigHttpd _ [] [] _ _ _ hconfig rfl rfl).2.1
  have hsize := congrArg (·.maxmesssize) hlaw
  revert hsize
  decide

end Example

end ModCluster
