import ModCluster.ListFields
import ModCluster.Version

/-!
# Commands of the page and of MCMP

The manager page gives a command the message that MCMP would, with the parameters of
the page before it. The scope of the command is read off the file name, and the page
has its own uri there, whatever range the query asks for.
-/

open CString Slotmem Slotmem.Table

namespace ModCluster

/-! ## Requests -/

inductive AppCommand where
  | enableApp
  | disableApp
  | stopApp
  | removeApp
deriving DecidableEq

namespace AppCommand

def name : AppCommand → Str
  | enableApp => ascii "ENABLE-APP"
  | disableApp => ascii "DISABLE-APP"
  | stopApp => ascii "STOP-APP"
  | removeApp => ascii "REMOVE-APP"

def status : AppCommand → ContextStatus
  | enableApp => .enabled
  | disableApp => .disabled
  | stopApp => .stopped
  | removeApp => .remove

end AppCommand

/-- A GET on the page. -/
def pageGet (uri : Str) : Trans where
  pageHandler := true
  isGet := true
  invalid := false
  enableMcmpReceive := false
  isOurMethod := false
  uri := uri

/-- A request with a method of MCMP, where these are received. -/
def mcmpMethod (uri : Str) : Trans where
  pageHandler := false
  isGet := false
  invalid := true
  enableMcmpReceive := true
  isOurMethod := true
  uri := uri

def pageRequest (httpd : Httpd) (u : Unescaper) (conf : PageConf) (now : Int) (ts : Tables) (uri query : Str)
    (behind : Mem) : Tables :=
  match managerTrans (pageGet uri) with
  | .page filename => (managerInfo httpd u conf now ts filename (some query) behind).tables
  | _ => ts

/-- A command of MCMP with a body that has been received. -/
def mcmpRequest (httpd : Httpd) (now : Int) (uri : Str) (cmd : AppCommand) (ts : Tables) (body : Str) : Tables :=
  match managerTrans (mcmpMethod uri) with
  | .mcmp filename =>
    match processBuff (body ++ [0]) with
    | none => ts
    | some argv => (processAppCmd httpd now ts filename argv cmd.status).tables
  | _ => ts

/-- The parameters of the page that are none of the command's. -/
def pageParams (conf : PageConf) (cmd : AppCommand) (range : Str) : List (Str × Str) :=
  (if conf.nonce then [(ascii "nonce", conf.balancerNonce)] else []) ++
    [(ascii "Cmd", cmd.name), (ascii "Range", range)]

def routeField (j : Str) : List (Str × Str) := [(ascii "JVMRoute", j)]

def contextFields (j a c : Str) : List (Str × Str) :=
  [(ascii "JVMRoute", j), (ascii "Alias", a), (ascii "Context", c)]

/-- The JVMRoutes of the nodes of a domain, in the order of the table. -/
def domainRoutes (ts : Tables) (d : Str) : List Str :=
  (getIdsUsedNode ts.nodes).filterMap fun id =>
    match getNode ts.nodes id with
    | none => none
    | some i => if (ts.nodes.peek i).mess.domain = d then some (ts.nodes.peek i).mess.jvmRoute else none

/-! ## Agreement -/

section Agreement

variable (httpd : Httpd) (u : Unescaper) (conf : PageConf) (now : Int) (ts : Tables) (uri : Str) (behind : Mem)
  (cmd : AppCommand)

def NodeAgrees (j : Str) : Prop :=
  pageRequest httpd u conf now ts uri (joinPairs (pageParams conf cmd (ascii "NODE") ++ routeField j)) behind =
    mcmpRequest httpd now (ascii "/*") cmd ts (joinPairs (routeField j))

def DomainAgrees (d : Str) : Prop :=
  pageRequest httpd u conf now ts uri (joinPairs (pageParams conf cmd (ascii "DOMAIN") ++ [(ascii "Domain", d)])) behind =
    (domainRoutes ts d).foldl (fun ts j => mcmpRequest httpd now (ascii "/*") cmd ts (joinPairs (routeField j))) ts

def ContextAgrees (j a c : Str) : Prop :=
  pageRequest httpd u conf now ts uri (joinPairs (pageParams conf cmd (ascii "CONTEXT") ++ contextFields j a c)) behind =
    mcmpRequest httpd now (ascii "/") cmd ts (joinPairs (contextFields j a c))

/-- A command for this JVMRoute finds a node that it may work on. -/
def Accepts (j : Str) : Prop :=
  j ≠ [] ∧ j.length < httpd.routeSize ∧
    ∃ i, (readNode ts.nodes (routeNode j (-1))).1 = some i ∧ (ts.nodes.peek i).mess.remove = false

end Agreement

/-! ## Commands by their messages -/

section Commands

variable {httpd : Httpd} {u : Unescaper} {conf : PageConf} {now : Int} {ts : Tables} {uri filename filename' : Str} {behind : Mem}
  {cmd : AppCommand} {status : ContextStatus} {argv argv' : Argv}

theorem processAppCmd_congr (hglob : (filename == NODE_COMMAND) = (filename' == NODE_COMMAND))
    (h : parseApp httpd (filename == NODE_COMMAND) argv = parseApp httpd (filename' == NODE_COMMAND) argv') :
    processAppCmd httpd now ts filename argv status = processAppCmd httpd now ts filename' argv' status := by
  rw [hglob] at h
  unfold processAppCmd
  simp only [hglob, h]

theorem processAppCmd_refused {e : Stop} (h : parseApp httpd (filename == NODE_COMMAND) argv = .error e) :
    (processAppCmd httpd now ts filename argv status).tables = ts := by
  unfold processAppCmd
  simp only [h]
  cases e with
  | error e => rfl
  | undefined => rfl

theorem processAppCmd_accepted {args : AppArgs} (h : parseApp httpd (filename == NODE_COMMAND) argv = .ok args)
    (hne : args.jvmRoute ≠ []) (hlen : args.jvmRoute.length < httpd.routeSize) :
    (Accepts httpd ts args.jvmRoute ∧
        (processAppCmd httpd now ts filename argv status).tables.version = ts.version + 1) ∨
      (¬ Accepts httpd ts args.jvmRoute ∧ (processAppCmd httpd now ts filename argv status).tables = ts) := by
  unfold processAppCmd Accepts
  simp only [h]
  cases hread : (readNode ts.nodes (routeNode args.jvmRoute (-1))).1 with
  | none => exact Or.inr ⟨fun ⟨_, _, i, hi, _⟩ => absurd hi (by simp), rfl⟩
  | some i =>
    simp only
    by_cases hremove : (ts.nodes.peek i).mess.remove = true
    · rw [if_pos hremove]
      refine Or.inr ⟨?_, rfl⟩
      rintro ⟨-, -, i', hi, hr⟩
      cases hi
      rw [hr] at hremove
      exact Bool.false_ne_true hremove
    · rw [if_neg hremove]
      refine Or.inl ⟨⟨hne, hlen, i, rfl, Bool.eq_false_iff.2 hremove⟩, ?_⟩
      split
      · exact processNodeCmd_version _ _ _
      · exact appAliases_version _ _ _ _ _ _

/-! ### MCMP -/

theorem mcmpRequest_wildcard (body : Str) :
    mcmpRequest httpd now (ascii "/*") cmd ts body =
      match processBuff (body ++ [0]) with
      | none => ts
      | some argv => (processAppCmd httpd now ts NODE_COMMAND argv cmd.status).tables := rfl

theorem mcmpRequest_root (body : Str) :
    mcmpRequest httpd now (ascii "/") cmd ts body =
      match processBuff (body ++ [0]) with
      | none => ts
      | some argv => (processAppCmd httpd now ts (ascii "/") argv cmd.status).tables := rfl

/-- What a wildcard command does with a JVMRoute. -/
def wildcardCommand (httpd : Httpd) (now : Int) (cmd : AppCommand) (ts : Tables) (j : Str) : Tables :=
  (processAppCmd httpd now ts NODE_COMMAND (tokenArgv (routeTokens j) []) cmd.status).tables

theorem tokenArgv_nil (tokens : List Str) :
    tokenArgv tokens [] = { mem := tokenMem tokens, ptr := tokenOffsets 0 tokens } := by
  unfold tokenArgv
  rw [List.append_nil]

theorem mcmpRequest_route {j : Str} (hj : Plain j) :
    mcmpRequest httpd now (ascii "/*") cmd ts (joinPairs (routeField j)) =
      if Clean j then wildcardCommand httpd now cmd ts j else ts := by
  have hpairs : PlainPairs (routeField j) := List.forall_mem_singleton.2 ⟨show Plain (ascii "JVMRoute") by decide, hj⟩
  have hclean : (∀ t ∈ pairTokens (routeField j), Clean t) ↔ Clean j := by
    show (∀ t ∈ [ascii "JVMRoute", j], Clean t) ↔ _
    rw [List.forall_mem_cons, List.forall_mem_singleton]
    exact and_iff_right (by decide)
  rw [mcmpRequest_wildcard, processBuff_joinPairs hpairs (List.cons_ne_nil _ _)]
  simp only [hclean]
  split
  · rename_i h
    split at h
    · cases h
    · rename_i hc
      rw [if_neg hc]
  · rename_i argv h
    split at h
    · rename_i hc
      cases h
      rw [if_pos hc, ← tokenArgv_nil]
      rfl
    · cases h

theorem wildcardCommand_cases {j : Str} (hj : 0 ∉ j) :
    (Accepts httpd ts j ∧ (wildcardCommand httpd now cmd ts j).version = ts.version + 1) ∨
      (¬ Accepts httpd ts j ∧ wildcardCommand httpd now cmd ts j = ts) := by
  have hparse := parseApp_route httpd (NODE_COMMAND == NODE_COMMAND) hj []
  unfold wildcardCommand
  by_cases hbig : j.length ≥ httpd.routeSize
  · rw [if_pos hbig] at hparse
    exact Or.inr ⟨fun h => absurd h.2.1 (Nat.not_lt.2 hbig), processAppCmd_refused hparse⟩
  by_cases hnil : j = []
  · rw [if_neg hbig, if_pos hnil] at hparse
    exact Or.inr ⟨fun h => h.1 hnil, processAppCmd_refused hparse⟩
  rw [if_neg hbig, if_neg hnil, if_pos (by decide)] at hparse
  exact processAppCmd_accepted hparse hnil (Nat.not_le.1 hbig)

/-! ### The page -/

/-- The keys of the fields are none of the page's, and no two are the same. -/
def FieldKeys (fields : List (Str × Str)) : Prop :=
  ([ascii "nonce", ascii "Cmd", ascii "Range"] ++ fields.map (·.1)).Pairwise fun a b => caseEq a b = false

theorem FieldKeys.distinct {fields : List (Str × Str)} (h : FieldKeys fields) (range : Str) :
    DistinctKeys (pageParams conf cmd range ++ fields) := by
  have hsub : List.Sublist ((pageParams conf cmd range ++ fields).map (·.1))
      ([ascii "nonce", ascii "Cmd", ascii "Range"] ++ fields.map (·.1)) := by
    unfold pageParams
    cases conf.nonce with
    | true => exact List.Sublist.refl _
    | false => exact List.sublist_cons_self _ _
  unfold DistinctKeys
  exact List.pairwise_map.1 (h.sublist hsub)

theorem pageParams_plain {range : Str} (hrange : Plain range) : PlainPairs (pageParams conf cmd range) := by
  have hcmd : Plain cmd.name := by cases cmd <;> decide
  intro p hp
  rcases List.mem_append.1 hp with hp | hp
  · split at hp
    · rw [List.mem_singleton.1 hp]
      exact ⟨show Plain (ascii "nonce") by decide, conf.plain⟩
    · cases hp
  · rcases List.mem_cons.1 hp with rfl | hp
    · exact ⟨show Plain (ascii "Cmd") by decide, hcmd⟩
    · rw [List.mem_singleton.1 hp]
      exact ⟨show Plain (ascii "Range") by decide, hrange⟩

theorem paramValue_nonce (range : Str) (fields : List (Str × Str)) (h : conf.nonce = true) :
    paramValue (pageParams conf cmd range ++ fields) (ascii "nonce") = some conf.balancerNonce := by
  unfold pageParams
  rw [h]
  rfl

theorem paramValue_cmd (range : Str) (fields : List (Str × Str)) :
    paramValue (pageParams conf cmd range ++ fields) (ascii "Cmd") = some cmd.name := by
  unfold pageParams
  cases conf.nonce <;> rfl

theorem paramValue_range (range : Str) (fields : List (Str × Str)) :
    paramValue (pageParams conf cmd range ++ fields) (ascii "Range") = some range := by
  unfold pageParams
  cases conf.nonce <;> rfl

theorem pageParams_other (range : Str) :
    ∀ p ∈ pageParams conf cmd range, 0 ∉ p.1 ∧ isOtherKey p.1 = true := by
  unfold pageParams
  cases conf.nonce <;> simp only [Bool.false_eq_true, if_false, if_true, List.nil_append, List.cons_append,
    List.forall_mem_cons] <;> decide

theorem applStatus_name (cmd : AppCommand) : applStatus cmd.name = some cmd.status := by
  cases cmd <;> rfl

theorem pageRequest_eq (hallow : conf.allowCmd = true) {range : Str} {fields : List (Str × Str)} (hrange : Plain range)
    (hplain : PlainPairs fields) (hkeys : FieldKeys fields) :
    pageRequest httpd u conf now ts uri (joinPairs (pageParams conf cmd range ++ fields)) behind =
      match rangeOf range with
      | .domain =>
        if ts.nodes.size = 0 then ts
        else (processDomain httpd now uri (some cmd.status)
          (tokenArgv (pairTokens (pageParams conf cmd range ++ fields)) behind).ptr
          (paramValue (pageParams conf cmd range ++ fields) (ascii "Domain")) (getIdsUsedNode ts.nodes)
          { tables := ts, mem := (tokenArgv (pairTokens (pageParams conf cmd range ++ fields)) behind).mem,
            outcome := .done }).tables
      | _ => (processAppCmd httpd now ts uri (tokenArgv (pairTokens (pageParams conf cmd range ++ fields)) behind)
          cmd.status).tables := by
  have hpairs : PlainPairs (pageParams conf cmd range ++ fields) := by
    intro p hp
    exact (List.mem_append.1 hp).elim (pageParams_plain hrange p) (hplain p)
  have hread := paramEntries_read hpairs [] behind
  rw [List.length_nil, List.nil_append] at hread
  have hnot : ¬ (caseEq cmd.name (ascii "DUMP") ∨ caseEq cmd.name (ascii "INFO")) := by cases cmd <;> decide
  show (managerInfo httpd u conf now ts uri (some _) behind).tables = _
  rw [managerInfo_joinPairs httpd u now ts uri behind hpairs (hkeys.distinct range) (paramValue_nonce range fields)]
  unfold processParams
  simp only [aprTableGet_read, hread, paramValue_cmd, paramValue_range, if_neg hnot, hallow, Bool.not_true,
    Bool.false_eq_true, if_false, applStatus_name, paramEntries_ptr]
  cases rangeOf range with
  | domain =>
    simp only
    split <;> rfl
  | node => rfl
  | context => rfl

theorem pageRequest_command (hallow : conf.allowCmd = true) {range : Str} {fields : List (Str × Str)}
    (hrange : Plain range) (hnot : rangeOf range ≠ .domain) (hplain : PlainPairs fields) (hkeys : FieldKeys fields) :
    pageRequest httpd u conf now ts uri (joinPairs (pageParams conf cmd range ++ fields)) behind =
      (processAppCmd httpd now ts uri (tokenArgv (pairTokens fields) behind) cmd.status).tables := by
  have htokens : pairTokens (pageParams conf cmd range ++ fields) =
      pairTokens (pageParams conf cmd range) ++ pairTokens fields := List.flatMap_append
  have hparse := parseApp_extra httpd (uri == NODE_COMMAND) (@pageParams_other conf cmd range) []
    (tokenArgv (pairTokens fields) behind)
  rw [List.append_nil, ← tokenArgv_append] at hparse
  rw [pageRequest_eq hallow hrange hplain hkeys, htokens]
  split
  · rename_i hdomain
    exact absurd hdomain hnot
  · rw [processAppCmd_congr rfl hparse]

/-! ## Nodes -/

theorem routeCommand_eq {j : Str} (hj : 0 ∉ j) :
    (processAppCmd httpd now ts uri (tokenArgv (routeTokens j) behind) cmd.status).tables =
      if uri = NODE_COMMAND then wildcardCommand httpd now cmd ts j else ts := by
  by_cases huri : uri = NODE_COMMAND
  · subst huri
    rw [if_pos rfl]
    unfold wildcardCommand
    rw [processAppCmd_congr rfl ((parseApp_route httpd _ hj behind).trans (parseApp_route httpd _ hj []).symm)]
  · have hglob : ¬ (uri == NODE_COMMAND) = true := by rwa [beq_iff_eq]
    have hparse := parseApp_route httpd (uri == NODE_COMMAND) hj behind
    rw [if_neg hglob] at hparse
    rw [if_neg huri]
    split at hparse
    · exact processAppCmd_refused hparse
    split at hparse
    · exact processAppCmd_refused hparse
    · exact processAppCmd_refused hparse

theorem nodeAgrees_iff (hallow : conf.allowCmd = true) {j : Str} (hj : Plain j) :
    NodeAgrees httpd u conf now ts uri behind cmd j ↔
      ¬ Accepts httpd ts j ∨ (uri = NODE_COMMAND ↔ Clean j) := by
  have hpairs : PlainPairs (routeField j) := List.forall_mem_singleton.2 ⟨show Plain (ascii "JVMRoute") by decide, hj⟩
  have hkeys : FieldKeys (routeField j) :=
    show List.Pairwise _ [ascii "nonce", ascii "Cmd", ascii "Range", ascii "JVMRoute"] by decide
  have htokens : pairTokens (routeField j) = routeTokens j := rfl
  unfold NodeAgrees
  rw [pageRequest_command hallow (by decide) (by decide) hpairs hkeys, mcmpRequest_route hj, htokens,
    routeCommand_eq hj.nul]
  rcases @wildcardCommand_cases httpd now ts cmd j hj.nul with ⟨hacc, hver⟩ | ⟨hacc, hsame⟩
  · have hne : wildcardCommand httpd now cmd ts j ≠ ts := by
      intro h
      rw [h] at hver
      omega
    rw [or_iff_right (not_not_intro hacc)]
    by_cases huri : uri = NODE_COMMAND
    · rw [if_pos huri]
      by_cases hc : Clean j
      · rw [if_pos hc]
        exact iff_of_true rfl (iff_of_true huri hc)
      · rw [if_neg hc]
        exact iff_of_false hne fun h => hc (h.1 huri)
    · rw [if_neg huri]
      by_cases hc : Clean j
      · rw [if_pos hc]
        exact iff_of_false hne.symm fun h => huri (h.2 hc)
      · rw [if_neg hc]
        exact iff_of_true rfl (iff_of_false huri hc)
  · rw [hsame, ite_self, ite_self]
    exact iff_of_true rfl (Or.inl hacc)

/-! ## Contexts -/

theorem beq_NODE_COMMAND (huri : uri ≠ NODE_COMMAND) : (uri == NODE_COMMAND) = false := beq_eq_false_iff_ne.2 huri

theorem contextCommand_cases {j a : Str} (c : Str) (hj : 0 ∉ j) (ha : 0 ∉ a) (behind : Mem) :
    ((Accepts httpd ts j ∧ ListsOk a c behind) ∧ (processAppCmd httpd now ts filename
        (tokenArgv (routeTokens j ++ listTokens a c) behind) status).tables.version = ts.version + 1) ∨
      (¬ (Accepts httpd ts j ∧ ListsOk a c behind) ∧ (processAppCmd httpd now ts filename
        (tokenArgv (routeTokens j ++ listTokens a c) behind) status).tables = ts) := by
  rcases @parseApp_lists a c httpd j hj ha (filename == NODE_COMMAND) behind with
    ⟨⟨hne, hlen, hlists⟩, args, hparse, rfl⟩ | ⟨hno, e, hparse⟩
  · rcases @processAppCmd_accepted httpd now ts filename status _ args hparse hne hlen with ⟨hacc, hver⟩ | ⟨hacc, hsame⟩
    · exact Or.inl ⟨⟨hacc, hlists⟩, hver⟩
    · exact Or.inr ⟨fun h => hacc h.1, hsame⟩
  · refine Or.inr ⟨fun h => hno ⟨h.1.1, h.1.2.1, h.2⟩, processAppCmd_refused hparse⟩

theorem contextFields_plain {j a c : Str} (hj : Plain j) (ha : Plain a) (hc : Plain c) :
    PlainPairs (contextFields j a c) := by
  refine List.forall_mem_cons.2 ⟨⟨?_, hj⟩, List.forall_mem_cons.2 ⟨⟨?_, ha⟩, List.forall_mem_singleton.2 ⟨?_, hc⟩⟩⟩
  · exact show Plain (ascii "JVMRoute") by decide
  · exact show Plain (ascii "Alias") by decide
  · exact show Plain (ascii "Context") by decide

theorem contextFields_clean (j a c : Str) :
    (∀ t ∈ pairTokens (contextFields j a c), Clean t) ↔ Clean j ∧ Clean a ∧ Clean c := by
  have hroute : Clean (ascii "JVMRoute") := by decide
  have halias : Clean (ascii "Alias") := by decide
  have hcontext : Clean (ascii "Context") := by decide
  show (∀ t ∈ [ascii "JVMRoute", j, ascii "Alias", a, ascii "Context", c], Clean t) ↔ _
  simp only [List.forall_mem_cons, hroute, halias, hcontext, true_and, List.not_mem_nil, false_implies, implies_true,
    and_true]

theorem mcmpRequest_contexts {j a c : Str} (hj : Plain j) (ha : Plain a) (hc : Plain c) :
    mcmpRequest httpd now (ascii "/") cmd ts (joinPairs (contextFields j a c)) =
      if Clean j ∧ Clean a ∧ Clean c then
        (processAppCmd httpd now ts (ascii "/") (tokenArgv (routeTokens j ++ listTokens a c) []) cmd.status).tables
      else ts := by
  rw [mcmpRequest_root, processBuff_joinPairs (contextFields_plain hj ha hc) (List.cons_ne_nil _ _)]
  simp only [contextFields_clean]
  by_cases hclean : Clean j ∧ Clean a ∧ Clean c
  · rw [if_pos hclean, if_pos hclean, tokenArgv_nil]
    rfl
  · rw [if_neg hclean, if_neg hclean]

theorem tokenOffsets_lt {tokens : List Str} {pos p : Nat} (hp : p ∈ tokenOffsets pos tokens) :
    p < pos + (tokenMem tokens).length := by
  induction tokens generalizing pos with
  | nil => cases hp
  | cons t rest ih =>
    rw [tokenMem_cons, List.length_append, List.length_cons]
    rcases List.mem_cons.1 hp with rfl | hp
    · omega
    · have := ih hp
      omega

theorem parseApp_lists_behind {j a c : Str} (hj : 0 ∉ j) (ha : 0 ∉ a) (hne : j ≠ []) (hlen : j.length < httpd.routeSize)
    (hlists : ListsOk a c []) (glob : Bool) (behind : Mem) :
    ListsOk a c behind ∧ parseApp httpd glob (tokenArgv (routeTokens j ++ listTokens a c) behind) =
      parseApp httpd glob (tokenArgv (routeTokens j ++ listTokens a c) []) := by
  have hsplit : tokenMem (routeTokens j ++ listTokens a c) =
      tokenMem (routeTokens j ++ [ascii "Alias", a, ascii "Context"]) ++ (c ++ [0]) := by
    simp [routeTokens, listTokens, tokenMem]
  have hend : Ended (tokenMem (routeTokens j ++ listTokens a c)) := by
    have hnul : Ended [0] := rfl
    rw [hsplit]
    exact hnul.append.append
  rcases @parseApp_lists a c httpd j hj ha glob [] with ⟨-, args, hargs, -⟩ | ⟨hno, -⟩
  swap
  · exact absurd ⟨hne, hlen, hlists⟩ hno
  have hok : parseApp httpd glob (tokenArgv (routeTokens j ++ listTokens a c) behind) = .ok args := by
    rw [tokenArgv_nil] at hargs
    refine parseApp_behind behind hend (fun p hp => ?_) hargs
    have hlt := tokenOffsets_lt hp
    rwa [Nat.zero_add] at hlt
  rw [hok, hargs]
  rcases @parseApp_lists a c httpd j hj ha glob behind with ⟨hyes, -⟩ | ⟨-, e, he⟩
  · exact ⟨hyes.2.2, rfl⟩
  · rw [hok] at he
    cases he

theorem contextAgrees_commands (hallow : conf.allowCmd = true) {j a c : Str} (hj : Plain j) (ha : Plain a)
    (hc : Plain c) :
    ContextAgrees httpd u conf now ts uri behind cmd j a c ↔
      (processAppCmd httpd now ts uri (tokenArgv (routeTokens j ++ listTokens a c) behind) cmd.status).tables =
        if Clean j ∧ Clean a ∧ Clean c then
          (processAppCmd httpd now ts (ascii "/") (tokenArgv (routeTokens j ++ listTokens a c) []) cmd.status).tables
        else ts := by
  have hkeys : FieldKeys (contextFields j a c) :=
    show List.Pairwise _ [ascii "nonce", ascii "Cmd", ascii "Range", ascii "JVMRoute", ascii "Alias", ascii "Context"]
      by decide
  have htokens : pairTokens (contextFields j a c) = routeTokens j ++ listTokens a c := rfl
  unfold ContextAgrees
  rw [pageRequest_command hallow (by decide) (by decide) (contextFields_plain hj ha hc) hkeys,
    mcmpRequest_contexts hj ha hc, htokens]

theorem contextAgrees_of_not_accepts (hallow : conf.allowCmd = true) {j a c : Str} (hj : Plain j) (ha : Plain a)
    (hc : Plain c) (hacc : ¬ Accepts httpd ts j) : ContextAgrees httpd u conf now ts uri behind cmd j a c := by
  have hpage := @contextCommand_cases httpd now ts uri cmd.status j a c hj.nul ha.nul behind
  have hmcmp := @contextCommand_cases httpd now ts (ascii "/") cmd.status j a c hj.nul ha.nul []
  rw [contextAgrees_commands hallow hj ha hc, (hpage.resolve_left fun h => hacc h.1.1).2,
    (hmcmp.resolve_left fun h => hacc h.1.1).2, ite_self]

theorem contextAgrees_iff (hallow : conf.allowCmd = true) (huri : uri ≠ NODE_COMMAND) {j a c : Str} (hj : Plain j)
    (ha : Plain a) (hc : Plain c) :
    ContextAgrees httpd u conf now ts uri behind cmd j a c ↔
      ¬ Accepts httpd ts j ∨ (ListsOk a c behind → (Clean j ∧ Clean a ∧ Clean c) ∧ ListsOk a c []) := by
  by_cases hacc : Accepts httpd ts j
  swap
  · exact iff_of_true (contextAgrees_of_not_accepts hallow hj ha hc hacc) (Or.inl hacc)
  have hpage := @contextCommand_cases httpd now ts uri cmd.status j a c hj.nul ha.nul behind
  have hmcmp := @contextCommand_cases httpd now ts (ascii "/") cmd.status j a c hj.nul ha.nul []
  rw [contextAgrees_commands hallow hj ha hc]
  rw [or_iff_right (not_not_intro hacc)]
  by_cases hlists : ListsOk a c behind
  swap
  · -- Without the memory behind them the lists are refused too.
    have hnil : ¬ ListsOk a c [] := fun h =>
      hlists (parseApp_lists_behind hj.nul ha.nul hacc.1 hacc.2.1 h false behind).1
    rw [(hpage.resolve_left fun h => hlists h.1.2).2, (hmcmp.resolve_left fun h => hnil h.1.2).2, ite_self]
    exact iff_of_true rfl fun h => absurd h hlists
  have hver := (hpage.resolve_right fun h => h.1 ⟨hacc, hlists⟩).2
  have hne : (processAppCmd httpd now ts uri (tokenArgv (routeTokens j ++ listTokens a c) behind) cmd.status).tables ≠ ts := by
    intro h
    rw [h] at hver
    omega
  by_cases hclean : Clean j ∧ Clean a ∧ Clean c
  swap
  · rw [if_neg hclean]
    exact iff_of_false hne fun h => hclean (h hlists).1
  rw [if_pos hclean]
  by_cases hnil : ListsOk a c []
  · have hparse := (parseApp_lists_behind hj.nul ha.nul hacc.1 hacc.2.1 hnil (uri == NODE_COMMAND) behind).2
    have hglob : (uri == NODE_COMMAND) = (ascii "/" == NODE_COMMAND) := (beq_NODE_COMMAND huri).trans (by decide)
    rw [processAppCmd_congr hglob (hparse.trans (by rw [hglob]))]
    exact iff_of_true rfl fun _ => ⟨hclean, hnil⟩
  · rw [(hmcmp.resolve_left fun h => hnil h.1.2).2]
    exact iff_of_false hne fun h => hnil (h hlists).2

end Commands

end ModCluster
