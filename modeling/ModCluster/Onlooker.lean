import ModCluster.Registry
import ModCluster.Lib.Mirror

/-!
# An onlooker

Who sees the requests and their answers can keep the registry of applications without
ever looking into the tables: the answers list what the commands have reached.
-/

open CString Slotmem Slotmem.Table Mirror

namespace ModCluster

/-! ## What bears on no application -/

/-- Nodes keep their names and marks. -/
structure Untouched (ts ts' : Tables) : Prop where
  hosts : ts'.hosts = ts.hosts
  contexts : ts'.contexts = ts.contexts
  nodes : NodesDescend ts.nodes ts'.nodes
  stay : ∀ i a, ts.nodes.used i = some a → ∃ b, ts'.nodes.used i = some b ∧ b.mess.remove = a.mess.remove

section Untouched

variable {httpd : Httpd} {env : Surroundings} {ts ts' ts'' : Tables} {px : Option Proxy} {argv : Argv} {i : Nat}

theorem Untouched.refl : Untouched ts ts := ⟨rfl, rfl, NodesDescend.refl, fun _ a ha => ⟨a, ha, rfl⟩⟩

theorem Untouched.trans (h : Untouched ts ts') (h' : Untouched ts' ts'') : Untouched ts ts'' := by
  refine ⟨h'.hosts.trans h.hosts, h'.contexts.trans h.contexts, h.nodes.trans h'.nodes, fun i a ha => ?_⟩
  obtain ⟨b, hb, hba⟩ := h.stay i a ha
  obtain ⟨c, hc, hcb⟩ := h'.stay i b hb
  exact ⟨c, hc, hcb.trans hba⟩

theorem Untouched.poke {n : Nodeinfo} (hdesc : Descends (ts.nodes.peek i) n)
    (hmark : n.mess.remove = (ts.nodes.peek i).mess.remove) :
    Untouched ts { ts with nodes := ts.nodes.poke i n } where
  hosts := rfl
  contexts := rfl
  nodes j b hb := by
    rcases used_of_poke hb with ⟨rfl, rfl, a, ha⟩ | ⟨-, hb⟩
    · rw [peek_of_used ha] at hdesc
      exact ⟨a, ha, hdesc⟩
    · exact ⟨b, hb, Descends.refl b⟩
  stay j a ha := by
    by_cases hij : i = j
    · subst hij
      rw [peek_of_used ha] at hmark
      exact ⟨n, used_poke_self n ha, hmark⟩
    · exact ⟨a, (used_poke_ne n hij).trans ha, rfl⟩

theorem StatWrites.untouched (h : StatWrites ts ts') : Untouched ts ts' := by
  induction h with
  | refl => exact Untouched.refl
  | tail _ hw ih =>
    obtain ⟨i, f, rfl⟩ := hw
    exact ih.trans (Untouched.poke ⟨rfl, rfl, id, Or.inl rfl⟩ rfl)

theorem unpairWorkerNode_untouched (w : Worker) : Untouched ts (unpairWorkerNode ts w i).1 :=
  (Worker.write_spec w _).1.untouched.trans (Untouched.poke ⟨rfl, rfl, id, Or.inl rfl⟩ rfl)

theorem lookupWorkers_untouched (id : Int) (ws : List Worker) : Untouched ts (lookupWorkers id i ts ws).1 := by
  induction ws generalizing ts with
  | nil => exact Untouched.refl
  | cons w rest ih =>
    unfold lookupWorkers
    split
    · exact Untouched.refl
    split
    · exact Untouched.refl
    simp only
    split
    · exact (unpairWorkerNode_untouched w).trans ih
    · exact ih

theorem lookupBalancers_untouched (id : Int) (bs : List ProxyBalancer) :
    Untouched ts (lookupBalancers id i ts bs).1 := by
  induction bs generalizing ts with
  | nil => exact Untouched.refl
  | cons b rest ih =>
    unfold lookupBalancers
    simp only
    split
    · exact (lookupWorkers_untouched id b.workers).trans ih
    · exact lookupWorkers_untouched id b.workers

theorem addBalancersWorkers_untouched (servers : List Server) {main : Bool} :
    Untouched ts (addBalancersWorkers httpd env i main servers ts).1 := by
  induction servers generalizing main ts with
  | nil => exact Untouched.refl
  | cons sv rest ih =>
    have hadd : ∀ creatBal now, Untouched ts (isupServer httpd creatBal main now ts sv i).1 := fun creatBal now =>
      addBalancersWorkersForServer_spec.1.untouched.trans (Untouched.poke ⟨rfl, rfl, id, Or.inl rfl⟩ rfl)
    exact (hadd _ _).trans ih

theorem searchServers_untouched (id : Int) (servers : List Server) {k : Nat} :
    Untouched ts (searchServers id i k servers ts).tables := by
  induction servers generalizing k ts with
  | nil => exact Untouched.refl
  | cons sv rest ih =>
    have hlookup : Untouched ts (getWorkerFromIdStat ts sv id i).1 := lookupBalancers_untouched id sv.balancers
    unfold searchServers
    simp only
    split
    · exact hlookup
    · exact hlookup
    · exact hlookup.trans ih

theorem proxyNodeIsup_untouched {p : Proxy} {id load : Int} :
    Untouched ts (proxyNodeIsup httpd env ts p id load).tables := by
  unfold proxyNodeIsup
  split
  · exact Untouched.refl
  rename_i i hi
  split
  · exact Untouched.refl
  have hadd : Untouched ts (addBalancersWorkers httpd env i true p.servers ts).1 :=
    addBalancersWorkers_untouched p.servers
  have hsearch : Untouched ts (searchServers id i 0 (addBalancersWorkers httpd env i true p.servers ts).2
      (addBalancersWorkers httpd env i true p.servers ts).1).tables := hadd.trans (searchServers_untouched id _)
  simp only
  split
  · exact hsearch
  · exact hsearch.trans (Worker.write_spec _ _).1.untouched

theorem processStatus_untouched : Untouched ts (processStatus httpd env ts px argv).tables := by
  unfold processStatus
  split
  · exact Untouched.refl
  · exact Untouched.refl
  simp only
  split
  · exact Untouched.refl
  split
  · exact Untouched.refl
  unfold isnodeUp
  split
  · exact Untouched.refl
  simp only
  split
  · exact proxyNodeIsup_untouched
  · exact proxyNodeIsup_untouched

theorem Untouched.registry (h : Untouched ts ts') (htold : Told ts) (hedits : Edits False ts ts') :
    Told ts' ∧ registry ts' = registry ts := by
  have hnew : Told ts' := by
    refine ⟨hedits.sound htold.sound, htold.routes.descend h.nodes, ?_⟩
    rw [h.hosts]
    exact htold.hosts
  refine ⟨hnew, registry_aside htold hnew h.nodes (fun i a ha hremove => ?_) fun i a ha hremove host path => ?_⟩
  · obtain ⟨b, hb, hba⟩ := h.stay i a ha
    exact ⟨b, hb, hba.trans hremove⟩
  · unfold deployed
    rw [h.hosts, h.contexts]

end Untouched

/-! ## The listing, read back -/

/-- An alias and its contexts, if the line is theirs. -/
def readLine (line : Str) : Option (Str × List Str) :=
  if (ascii "Alias=").isPrefixOf line then
    let rest := line.drop 6
    some (rest.takeWhile (· != ch ' '), ((rest.dropWhile (· != ch ' ')).drop 10).splitOn (ch ','))
  else none

def readListing (text : Str) : List (Str × List Str) := (text.splitOn 10).filterMap readLine

/-- No name holds what ends it in the listing. -/
structure Readable (args : AppArgs) : Prop where
  route : 10 ∉ args.jvmRoute
  aliases : ∀ a ∈ args.aliases, 10 ∉ a ∧ ch ' ' ∉ a
  contexts : ∀ c ∈ args.contexts, 10 ∉ c ∧ ch ',' ∉ c

section Listing

variable {host : Str} {contexts : List Str} {rows : List (Str × List Str)} {args : AppArgs}

def listedLine (host : Str) (contexts : List Str) : Str :=
  ascii "Alias=" ++ host ++ ascii " Contexts=" ++ (ascii ",").intercalate contexts

theorem readLine_listed (hhost : ch ' ' ∉ host) (hcontexts : ∀ c ∈ contexts, ch ',' ∉ c) (hne : contexts ≠ []) :
    readLine (listedLine host contexts) = some (host, contexts) := by
  have hsplit : ((ascii ",").intercalate contexts).splitOn (ch ',') = contexts :=
    List.splitOn_intercalate _ hcontexts hne
  generalize hnames : (ascii ",").intercalate contexts = names at hsplit
  have hword : ∀ b ∈ host, (b != ch ' ') = true := by
    intro b hb
    rw [bne_iff_ne]
    rintro rfl
    exact hhost hb
  have hdrop : (listedLine host contexts).drop 6 = host ++ ch ' ' :: (ascii "Contexts=" ++ names) := by
    rw [listedLine, hnames]
    simp [ascii]
  have htake : (host ++ ch ' ' :: (ascii "Contexts=" ++ names)).takeWhile (· != ch ' ') = host := by
    rw [List.takeWhile_append_of_pos hword, List.takeWhile_cons_of_neg (by simp), List.append_nil]
  have hrest : (host ++ ch ' ' :: (ascii "Contexts=" ++ names)).dropWhile (· != ch ' ') =
      ch ' ' :: (ascii "Contexts=" ++ names) := by
    rw [List.dropWhile_append_of_pos hword, List.dropWhile_cons_of_neg (by simp)]
  have hten : (ch ' ' :: (ascii "Contexts=" ++ names)).drop 10 = names := by
    simp [ascii]
  have halias : (ascii "Alias=").isPrefixOf (listedLine host contexts) = true := by
    simp [listedLine, List.append_assoc]
  unfold readLine
  rw [if_pos halias]
  simp only [hdrop, htake, hrest, hten, hsplit]

theorem not_mem_listed (hhost : 10 ∉ host) (hcontexts : ∀ c ∈ contexts, 10 ∉ c) : 10 ∉ listedLine host contexts := by
  have hnames : 10 ∉ (ascii ",").intercalate contexts := by
    cases contexts with
    | nil => simp [List.intercalate]
    | cons c rest =>
      rw [intercalate_cons_eq, List.mem_append, List.mem_flatMap]
      rintro (hmem | ⟨d, hd, hmem⟩)
      · exact hcontexts c (by simp) hmem
      · rcases List.mem_append.1 hmem with hcomma | hmem
        · exact absurd hcomma (by decide)
        · exact hcontexts d (by simp [hd]) hmem
  have hwords : 10 ∉ ascii "Alias=" ∧ 10 ∉ ascii " Contexts=" := by decide
  simp [listedLine, hhost, hnames, hwords.1, hwords.2]

theorem readListing_rows (hrows : ∀ row ∈ rows, (10 ∉ row.1 ∧ ch ' ' ∉ row.1) ∧ ∀ c ∈ row.2, 10 ∉ c ∧ ch ',' ∉ c)
    {line : Str} (hline : 10 ∉ line) :
    readListing (line ++ (rows.flatMap (fun row => listingLine row.1 row.2) ++ [10])) =
      (readLine line).toList ++ rows.filter fun row => !row.2.isEmpty := by
  have hempty : readLine [] = none := rfl
  have hcons (line : Str) (hline : 10 ∉ line) (rest : Str) :
      readListing (line ++ 10 :: rest) = (readLine line).toList ++ readListing rest := by
    unfold readListing
    rw [List.splitOn_append_cons_self_of_not_mem hline, List.filterMap_cons]
    cases readLine line <;> rfl
  induction rows generalizing line with
  | nil =>
    rw [List.flatMap_nil, List.nil_append, hcons line hline]
    rfl
  | cons row rows ih =>
    obtain ⟨⟨⟨halias, hspace⟩, hnames⟩, hrest⟩ := List.forall_mem_cons.1 hrows
    by_cases hnone : row.2 = []
    · have hskip : listingLine row.1 row.2 = [] := by
        unfold listingLine
        rw [if_pos hnone]
      rw [List.flatMap_cons, hskip, List.nil_append, ih hrest hline, List.filter_cons_of_neg (by simp [hnone])]
    · have hshow : listingLine row.1 row.2 = 10 :: (listedLine row.1 row.2 ++ [10]) := by
        unfold listingLine listedLine
        rw [if_neg hnone]
        simp only [List.append_assoc, List.cons_append, List.nil_append]
      have hfree := not_mem_listed halias fun c hc => (hnames c hc).1
      have htext : line ++ ((row :: rows).flatMap (fun row => listingLine row.1 row.2) ++ [10]) =
          line ++ 10 :: (listedLine row.1 row.2 ++ 10 ::
            ([] ++ (rows.flatMap (fun row => listingLine row.1 row.2) ++ [10]))) := by
        rw [List.flatMap_cons, hshow]
        simp only [List.append_assoc, List.cons_append, List.nil_append]
      rw [htext, hcons line hline, hcons _ hfree, readLine_listed hspace (fun c hc => (hnames c hc).2) hnone,
        ih hrest List.not_mem_nil, hempty, List.filter_cons_of_pos (by simp [hnone])]
      rfl

theorem readListing_appListing (cmd : ContextStatus) {route : Str} (hroute : 10 ∉ route)
    (hrows : ∀ row ∈ rows, (10 ∉ row.1 ∧ ch ' ' ∉ row.1) ∧ ∀ c ∈ row.2, 10 ∉ c ∧ ch ',' ∉ c) :
    readListing (appListing cmd route rows) = rows.filter fun row => !row.2.isEmpty := by
  have htype : 10 ∉ responseType cmd ∧ readLine (responseType cmd) = none := by cases cmd <;> decide
  have hline : 10 ∉ ascii "JvmRoute=" ++ route := by
    have hword : 10 ∉ ascii "JvmRoute=" := by decide
    simp [hword, hroute]
  have hread : readLine (ascii "JvmRoute=" ++ route) = none := by
    simp [readLine, ascii, List.isPrefixOf, ch]
  have htext : appListing cmd route rows =
      responseType cmd ++ 10 :: ((ascii "JvmRoute=" ++ route) ++
        (rows.flatMap (fun row => listingLine row.1 row.2) ++ [10])) := by
    simp only [appListing, List.append_assoc, List.cons_append, List.nil_append]
  have hrest := readListing_rows hrows hline
  rw [hread] at hrest
  rw [htext]
  unfold readListing at hrest ⊢
  rw [List.splitOn_append_cons_self_of_not_mem htype.1, List.filterMap_cons, htype.2, hrest]
  rfl

end Listing

/-! ## What is seen, and what it tells -/

/-- The command on applications that a request is, if it is one. -/
def commandOf (httpd : Httpd) (buffer : BufferConf) (r : ManagerRequest) : Option (ContextStatus × AppArgs) :=
  (applStatus r.method).bind fun cmd =>
    match receiveArgv httpd buffer r.method r.input with
    | .ok argv =>
      match parseApp httpd (r.filename == NODE_COMMAND) argv with
      | .ok args => some (cmd, args)
      | .error _ => none
    | .error _ => none

/-- The names of a command can be told apart in its answer. -/
def Legible (httpd : Httpd) (buffer : BufferConf) (r : ManagerRequest) : Prop :=
  ∀ cmd args, commandOf httpd buffer r = some (cmd, args) → Readable args

structure Exchange where
  /-- As the server that took the request is configured. -/
  buffer : BufferConf
  request : ManagerRequest
  answer : Answer

namespace Registry

def obey (reg : Registry) (cmd : ContextStatus) (wildcard : Bool) (args : AppArgs) (response : Option Str) : Registry :=
  if wildcard then if cmd = .remove then reg.drop args.jvmRoute else reg.setAll args.jvmRoute cmd
  else if cmd = .remove then reg.withdraw args.jvmRoute args.aliases args.contexts
  else reg.assign args.jvmRoute (readListing (response.getD [])) cmd

def learn (httpd : Httpd) (reg : Registry) (e : Exchange) : Registry :=
  match e.answer with
  | .sent response =>
    match commandOf httpd e.buffer e.request with
    | some (cmd, args) => reg.obey cmd (e.request.filename == NODE_COMMAND) args response
    | none => reg
  | _ => reg

theorem assign_filter (reg : Registry) (route : Str) (rows : List (Str × List Str)) (status : ContextStatus) :
    reg.assign route (rows.filter fun row => !row.2.isEmpty) status = reg.assign route rows status := by
  have hrow (a p : Str) (row : Str × List Str) :
      (!row.2.isEmpty && (row.1 == a && row.2.contains p)) = (row.1 == a && row.2.contains p) := by
    cases hrow : row.2 with
    | nil => simp
    | cons c rest => rfl
  funext r a p
  simp only [assign, List.any_filter, hrow]

end Registry

section Learn

variable {httpd : Httpd} {reg : Registry} {e : Exchange} {response : Option Str} {cmd : ContextStatus} {args : AppArgs}

theorem learn_sent (hsent : e.answer = .sent response) (hcmd : commandOf httpd e.buffer e.request = some (cmd, args)) :
    reg.learn httpd e = reg.obey cmd (e.request.filename == NODE_COMMAND) args response := by
  unfold Registry.learn
  rw [hsent, hcmd]

theorem learn_other (h : commandOf httpd e.buffer e.request = none) : reg.learn httpd e = reg := by
  unfold Registry.learn
  rw [h]
  cases e.answer <;> rfl

end Learn

/-! ## One exchange -/

section Exchanges

variable {httpd : Httpd} {u : Unescaper} {conf : ManagerConf} {env : Surroundings}
  {transferred : WorkerShared → Nat} {ts : Tables} {px : Option Proxy} {r : ManagerRequest} {argv : Argv}
  {now : Int} {filename : Str} {cmd : ContextStatus} {args : AppArgs}

theorem registry_obeyed (h : Told ts) (hargs : parseApp httpd (filename == NODE_COMMAND) argv = .ok args)
    (hread : Readable args) {i : Nat} (hnode : Addressed ts args.jvmRoute i) :
    (processAppCmd httpd now ts filename argv cmd).outcome = .done ∧
      registry (processAppCmd httpd now ts filename argv cmd).tables =
        (registry ts).obey cmd (filename == NODE_COMMAND) args
          (processAppCmd httpd now ts filename argv cmd).response := by
  unfold Registry.obey
  cases hfile : filename == NODE_COMMAND with
  | true =>
    rw [hfile] at hargs
    exact registry_wildcard h hargs hnode hfile
  | false =>
    rw [hfile] at hargs
    simp only [Bool.false_eq_true, if_false]
    by_cases hcmd : cmd = .remove
    · subst hcmd
      exact registry_removed h hargs hnode hfile
    · rw [if_neg hcmd]
      obtain ⟨f, hdone, hresponse, hregistry⟩ :=
        @registry_given httpd ts now filename argv cmd i args h hcmd hargs hnode hfile
      refine ⟨hdone, ?_⟩
      have hrows : ∀ row ∈ args.aliases.map (fun a => (a, args.contexts.filter (f a))),
          (10 ∉ row.1 ∧ ch ' ' ∉ row.1) ∧ ∀ c ∈ row.2, 10 ∉ c ∧ ch ',' ∉ c := by
        intro row hrow
        obtain ⟨a, ha, rfl⟩ := List.mem_map.1 hrow
        exact ⟨hread.aliases a ha, fun c hc => hread.contexts c (List.mem_filter.1 hc).1⟩
      rw [hregistry, hresponse, Option.getD_some, readListing_appListing cmd hread.route hrows, Registry.assign_filter]

theorem processAppCmd_unheard (now : Int) (cmd : ContextStatus)
    (hargs : parseApp httpd (filename == NODE_COMMAND) argv = .ok args) (hnode : ∀ i, ¬ Addressed ts args.jvmRoute i) :
    (processAppCmd httpd now ts filename argv cmd).outcome = .failed (.mnoderd args.jvmRoute) ∧
      (processAppCmd httpd now ts filename argv cmd).tables = ts := by
  unfold processAppCmd
  simp only [hargs]
  cases hi : (readNode ts.nodes (routeNode args.jvmRoute (-1))).1 with
  | none => exact ⟨rfl, rfl⟩
  | some i =>
    have hmark : (ts.nodes.peek i).mess.remove = true := by
      rw [← Bool.not_eq_false]
      exact fun hremove => hnode i ⟨hi, hremove⟩
    simp only [hmark, if_true]
    exact ⟨trivial, trivial⟩

theorem applStatus_other (h : applStatus r.method = some cmd) :
    processMessage httpd conf env transferred ts px r argv =
      ⟨(processAppCmd httpd env.now ts r.filename argv cmd).tables, px,
        answerOf (processAppCmd httpd env.now ts r.filename argv cmd).outcome
          (processAppCmd httpd env.now ts r.filename argv cmd).response⟩ := by
  have hnames : ∀ name ∈ [ascii "ENABLE-APP", ascii "DISABLE-APP", ascii "STOP-APP", ascii "REMOVE-APP"],
      ∀ other ∈ [ascii "CONFIG", ascii "STATUS", ascii "DUMP", ascii "INFO", ascii "PING", ascii "VERSION"],
        lower name ≠ lower other := by decide
  have hname : ∃ name ∈ [ascii "ENABLE-APP", ascii "DISABLE-APP", ascii "STOP-APP", ascii "REMOVE-APP"],
      caseEq r.method name = true := by
    unfold applStatus at h
    split at h
    · exact ⟨ascii "ENABLE-APP", by simp, ‹_›⟩
    split at h
    · exact ⟨ascii "DISABLE-APP", by simp, ‹_›⟩
    split at h
    · exact ⟨ascii "STOP-APP", by simp, ‹_›⟩
    split at h
    · exact ⟨ascii "REMOVE-APP", by simp, ‹_›⟩
    · cases h
  obtain ⟨name, hmem, hcase⟩ := hname
  have hother (other : Str) (ho : other ∈ [ascii "CONFIG", ascii "STATUS", ascii "DUMP", ascii "INFO", ascii "PING",
      ascii "VERSION"]) : caseEq r.method other = false := caseEq_unique hcase (hnames name hmem other ho)
  unfold processMessage
  rw [hother (ascii "CONFIG") (by simp), hother (ascii "STATUS") (by simp), hother (ascii "DUMP") (by simp),
    hother (ascii "INFO") (by simp), hother (ascii "PING") (by simp), hother (ascii "VERSION") (by simp)]
  simp only [Bool.false_eq_true, if_false, h]

theorem processMessage_other (h : Told ts) (hconfig : caseEq r.method (ascii "CONFIG") = false)
    (hcmd : applStatus r.method = none) :
    Told (processMessage httpd conf env transferred ts px r argv).tables ∧
      registry (processMessage httpd conf env transferred ts px r argv).tables = registry ts := by
  unfold processMessage
  rw [hconfig, hcmd]
  simp only [Bool.false_eq_true, if_false]
  split
  · exact processStatus_untouched.registry h processStatus_edits
  split
  · exact ⟨h, rfl⟩
  split
  · exact ⟨h, rfl⟩
  split
  · exact processPing_contacts.statWrites.untouched.registry h processPing_contacts.statWrites.edits
  split <;> exact ⟨h, rfl⟩

theorem processMessage_learn (h : Told ts) (hconfig : caseEq r.method (ascii "CONFIG") = false)
    (hargv : receiveArgv httpd conf.buffer r.method r.input = .ok argv) (hread : Legible httpd conf.buffer r) :
    Told (processMessage httpd conf env transferred ts px r argv).tables ∧
      registry (processMessage httpd conf env transferred ts px r argv).tables =
        (registry ts).learn httpd
          ⟨conf.buffer, r, (processMessage httpd conf env transferred ts px r argv).answer⟩ := by
  cases hcmd : applStatus r.method with
  | none =>
    have hnone : commandOf httpd conf.buffer r = none := by
      unfold commandOf
      rw [hcmd, Option.bind_none]
    rw [learn_other hnone]
    exact processMessage_other h hconfig hcmd
  | some cmd =>
    rw [applStatus_other hcmd]
    simp only
    refine ⟨h.appCmd httpd env.now r.filename argv cmd, ?_⟩
    cases hargs : parseApp httpd (r.filename == NODE_COMMAND) argv with
    | error stop =>
      have hnone : commandOf httpd conf.buffer r = none := by
        unfold commandOf
        simp only [hcmd, Option.bind_some, hargv, hargs]
      rw [learn_other hnone, processAppCmd_refused hargs]
    | ok args =>
      have hsome : commandOf httpd conf.buffer r = some (cmd, args) := by
        unfold commandOf
        simp only [hcmd, Option.bind_some, hargv, hargs]
      by_cases hnode : ∃ i, Addressed ts args.jvmRoute i
      · obtain ⟨i, hnode⟩ := hnode
        obtain ⟨hdone, hregistry⟩ := @registry_obeyed httpd ts argv env.now r.filename cmd args h hargs
          (hread cmd args hsome) i hnode
        rw [hdone, hregistry, learn_sent rfl hsome]
      · obtain ⟨hfailed, hsame⟩ := processAppCmd_unheard env.now cmd hargs (not_exists.1 hnode)
        rw [hfailed, hsame]
        rfl

theorem managerHandler_learn (h : Told ts) (hmcmp : r.handler ≠ ascii "mod_cluster-manager")
    (hconfig : caseEq r.method (ascii "CONFIG") = false) (hread : Legible httpd conf.buffer r) :
    Told (managerHandler httpd u conf env transferred ts px r).tables ∧
      registry (managerHandler httpd u conf env transferred ts px r).tables =
        (registry ts).learn httpd ⟨conf.buffer, r, (managerHandler httpd u conf env transferred ts px r).answer⟩ := by
  unfold managerHandler
  rw [if_neg hmcmp]
  split
  · exact ⟨h, rfl⟩
  split
  · exact ⟨h, rfl⟩
  cases hargv : receiveArgv httpd conf.buffer r.method r.input with
  | error e => exact ⟨h, rfl⟩
  | ok argv => exact processMessage_learn h hconfig hargv hread

end Exchanges

/-! ## Runs -/

/-- A message other than CONFIG, with its answer, or what goes on beside the messages and
is not seen. -/
inductive WatchedStep (httpd : Httpd) : Tables → Option Exchange → Tables → Prop
  | message {ts : Tables} (u : Unescaper) (conf : ManagerConf) (env : Surroundings) (transferred : WorkerShared → Nat)
      (px : Option Proxy) (r : ManagerRequest) (hmcmp : r.handler ≠ ascii "mod_cluster-manager")
      (hconfig : caseEq r.method (ascii "CONFIG") = false) (hread : Legible httpd conf.buffer r) :
      WatchedStep httpd ts (some ⟨conf.buffer, r, (managerHandler httpd u conf env transferred ts px r).answer⟩)
        (managerHandler httpd u conf env transferred ts px r).tables
  | watchdog {ts : Tables} (wait now : Int) : WatchedStep httpd ts none (removeRemovedNode httpd wait now ts)
  | lbWatchdog {ts : Tables} (wait now : Int) (nodeTable : List Int) :
      WatchedStep httpd ts none (lbRemoveRemovedNode wait now nodeTable ts)
  | bookkeeping {ts : Tables} (i : Nat) (a n : Nodeinfo) (hused : ts.nodes.used i = some a) (hkeep : Bookkeeping a n)
      (hmark : n.mess.remove = a.mess.remove) : WatchedStep httpd ts none { ts with nodes := ts.nodes.poke i n }

section Runs

variable {httpd : Httpd} {ts ts' : Tables} {seen : List Exchange}

theorem bookkeeping_registry (httpd : Httpd) {i : Nat} {a n : Nodeinfo} (h : Told ts) (hused : ts.nodes.used i = some a)
    (hkeep : Bookkeeping a n) (hmark : n.mess.remove = a.mess.remove) :
    Told { ts with nodes := ts.nodes.poke i n } ∧ registry { ts with nodes := ts.nodes.poke i n } = registry ts := by
  have hstep : HttpStep httpd ts { ts with nodes := ts.nodes.poke i n } := .bookkeeping i a n hused hkeep
  have hpeek := peek_of_used hused
  refine (Untouched.poke ⟨?_, ?_, ?_, Or.inl ?_⟩ ?_).registry h (hstep.edits h.sound.ids)
  · rw [hpeek, hkeep.host]
  · rw [hpeek, hkeep.port]
  · rw [hpeek]
    exact hkeep.remove
  · rw [hpeek, hkeep.jvmRoute]
  · rw [hpeek, hmark]

theorem watched_mirrors (httpd : Httpd) : Mirrors (WatchedStep httpd) Told registry (Registry.learn httpd) where
  keeps h hstep := by
    cases hstep with
    | message u conf env transferred px r hmcmp hconfig hread => exact (managerHandler_learn h hmcmp hconfig hread).1
    | watchdog wait now => exact (removeRemovedNode_registry h).1
    | lbWatchdog wait now nodeTable => exact (lbRemoveRemovedNode_registry nodeTable h).1
    | bookkeeping i a n hused hkeep hmark => exact (bookkeeping_registry httpd h hused hkeep hmark).1
  learns h hstep := by
    cases hstep with
    | message u conf env transferred px r hmcmp hconfig hread => exact (managerHandler_learn h hmcmp hconfig hread).2
  silent h hstep := by
    cases hstep with
    | watchdog wait now => exact (removeRemovedNode_registry h).2
    | lbWatchdog wait now nodeTable => exact (lbRemoveRemovedNode_registry nodeTable h).2
    | bookkeeping i a n hused hkeep hmark => exact (bookkeeping_registry httpd h hused hkeep hmark).2

/-- Whoever knows the registry once, and sees every message and its answer, goes on
knowing it. -/
theorem onlooker_knows (h : Told ts) (hrun : Run (WatchedStep httpd) ts seen ts') :
    registry ts' = seen.foldl (Registry.learn httpd) (registry ts) :=
  ((watched_mirrors httpd).run h hrun).2

/-! ### A node that is enabled and stopped -/

/-- ENABLE-APP of two contexts on two aliases. -/
def enableRequest : ManagerRequest where
  handler := ascii "mod-cluster"
  isGet := false
  method := ascii "ENABLE-APP"
  filename := ascii "/"
  accept := none
  args := none
  behind := []
  server := 0
  input := ⟨[ascii "JVMRoute=n1&Alias=host1,h2&Context=/app,/b"], .eos⟩

/-- STOP-APP of all that the node has. -/
def stopRequest : ManagerRequest :=
  { enableRequest with method := ascii "STOP-APP", filename := NODE_COMMAND, input := ⟨[ascii "JVMRoute=n1"], .eos⟩ }

def answered (ts : Tables) (r : ManagerRequest) : Reply :=
  managerHandler plainHttpd apUnescapeUrl openManager noAnswers (fun _ => 0) ts none r

def afterEnable : Reply := answered oneNode enableRequest

def afterStop : Reply := answered (removeRemovedNode plainHttpd 10 99 afterEnable.tables) stopRequest

theorem answered_step (ts : Tables) {r : ManagerRequest} {cmd : ContextStatus} {args : AppArgs}
    (hmcmp : r.handler = ascii "mod-cluster") (hconfig : caseEq r.method (ascii "CONFIG") = false)
    (hcmd : commandOf plainHttpd openManager.buffer r = some (cmd, args)) (hread : Readable args) :
    WatchedStep plainHttpd ts (some ⟨openManager.buffer, r, (answered ts r).answer⟩) (answered ts r).tables := by
  refine .message apUnescapeUrl openManager noAnswers (fun _ => 0) none r ?_ hconfig fun cmd' args' hcmd' => ?_
  · rw [hmcmp]
    decide
  · rw [hcmd] at hcmd'
    cases hcmd'
    exact hread

theorem oneNode_told : Told oneNode where
  sound := oneNode_httpReach.sound
  routes := by
    have hslots : oneNode.nodes.size = 2 ∧ (oneNode.nodes.used 0).map (·.mess.jvmRoute) = some (ascii "n1") ∧
        oneNode.nodes.used 1 = none := by
      decide +kernel
    obtain ⟨hsize, hname, hfree⟩ := hslots
    have hone (i : Nat) (a : Nodeinfo) (ha : oneNode.nodes.used i = some a) : i = 0 ∧ a.mess.jvmRoute ≠ REMOVED := by
      have hlt := used_lt ha
      have hne : i ≠ 1 := by
        rintro rfl
        rw [hfree] at ha
        cases ha
      obtain rfl : i = 0 := by omega
      rw [ha] at hname
      rw [show a.mess.jvmRoute = ascii "n1" from Option.some.inj hname]
      exact ⟨rfl, by decide⟩
    exact ⟨fun i j a b ha hb _ _ => (hone i a ha).1.trans (hone j b hb).1.symm,
      fun i a ha hr => absurd hr (hone i a ha).2⟩
  hosts := oneNode_noClash

/-- The watchdog ticks between the two commands. -/
theorem oneNode_watched :
    registry afterStop.tables (ascii "n1") (ascii "host1") (ascii "/b") = some .stopped ∧
      registry afterStop.tables (ascii "n1") (ascii "h2") (ascii "/b") = none := by
  have henable : commandOf plainHttpd openManager.buffer enableRequest =
      some (.enabled, ⟨ascii "n1", [ascii "host1", ascii "h2"], [ascii "/app", ascii "/b"]⟩) := by decide +kernel
  have hstop : commandOf plainHttpd openManager.buffer stopRequest = some (.stopped, ⟨ascii "n1", [], []⟩) := by
    decide +kernel
  have hfirst : Run (WatchedStep plainHttpd) oneNode [⟨openManager.buffer, enableRequest, afterEnable.answer⟩]
      afterEnable.tables :=
    .snoc (.nil oneNode) (answered_step oneNode rfl (by decide) henable ⟨by decide, by decide, by decide⟩)
  have htick : Run (WatchedStep plainHttpd) oneNode [⟨openManager.buffer, enableRequest, afterEnable.answer⟩]
      (removeRemovedNode plainHttpd 10 99 afterEnable.tables) := .snoc hfirst (.watchdog 10 99)
  have hrun : Run (WatchedStep plainHttpd) oneNode
      [⟨openManager.buffer, enableRequest, afterEnable.answer⟩, ⟨openManager.buffer, stopRequest, afterStop.answer⟩]
      afterStop.tables :=
    .snoc htick (answered_step _ rfl (by decide) hstop ⟨by decide, by decide, by decide⟩)
  rw [onlooker_knows oneNode_told hrun]
  decide +kernel

end Runs

end ModCluster
