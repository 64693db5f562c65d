import ModCluster.Commands
import ModCluster.StorageSpec
import ModCluster.Run

/-!
# STATUS without a JVMRoute

`process_status` looks its node up with a `nodeinfo_t` on its stack that only a
JVMRoute field sets. A message without one makes the answer depend on what the stack
held.
-/

open CString Slotmem Slotmem.Table

namespace ModCluster

/-! ## What a message asks -/

/-- What a message has set: a route, if it had one, and the load. -/
structure StatusRead where
  route : Option Str
  load : Int

def StatusRead.setRoute (a : StatusRead) (route : Str) : StatusRead := ⟨some route, a.load⟩

/-- The fields of a message, read without a stack. -/
def scanField (httpd : Httpd) (key v : Str) (a : StatusRead) : Except McmpError StatusRead :=
  if caseEq key (ascii "JVMRoute") then
    if v.length ≥ httpd.routeSize then .error .sroubig else .ok (a.setRoute v)
  else if caseEq key (ascii "Load") then
    if scanInt v a.load < -1 ∨ scanInt v a.load > 100 then .error .badLoad else .ok ⟨a.route, scanInt v a.load⟩
  else .error (.sbadfld key)

def scanFields (httpd : Httpd) (mem : Mem) : List Nat → StatusRead → Except Stop StatusRead
  | [], a => .ok a
  | [key], _ => if isStatusField (strAt mem key) then .error .undefined else .error (.error (.sbadfld (strAt mem key)))
  | key :: val :: rest, a =>
    match scanField httpd (strAt mem key) (strAt mem val) a with
    | .ok a => scanFields httpd mem rest a
    | .error e => .error (.error e)

/-- One of the fields is a JVMRoute. -/
def NamesRoute (mem : Mem) : List Nat → Prop
  | [] => False
  | [key] => caseEq (strAt mem key) (ascii "JVMRoute") = true
  | key :: _ :: rest => caseEq (strAt mem key) (ascii "JVMRoute") = true ∨ NamesRoute mem rest

/-- Every field is a Load with a number that is accepted. The last one may come without. -/
def OnlyLoads (mem : Mem) : List Nat → Int → Prop
  | [], _ => True
  | [key], _ => caseEq (strAt mem key) (ascii "Load") = true
  | key :: val :: rest, load =>
    caseEq (strAt mem key) (ascii "Load") = true ∧ -1 ≤ scanInt (strAt mem val) load ∧
      scanInt (strAt mem val) load ≤ 100 ∧ OnlyLoads mem rest (scanInt (strAt mem val) load)

/-- What the message has set is in `n`, and the rest is what the stack held. -/
def Shows (stack : Nodeinfo) (route : Option Str) (n : Nodeinfo) : Prop :=
  match route with
  | none => n = stack
  | some route => n.mess.jvmRoute = route ∧ n.mess.id = -1

def Surroundings.withStack (env : Surroundings) (n : Nodeinfo) : Surroundings := { env with stack := n }

/-- The message was refused. -/
def Refused (r : CommandResult) : Prop := ∃ e, r.outcome = .failed e

/-- The answer to a message does not depend on the stack, and a message without a JVMRoute is
refused. -/
def Determined (httpd : Httpd) (env : Surroundings) (ts : Tables) (px : Option Proxy) (argv : Argv) : Prop :=
  (∀ n n', processStatus httpd (env.withStack n) ts px argv = processStatus httpd (env.withStack n') ts px argv) ∧
    (¬ NamesRoute argv.mem argv.ptr → ∀ n, Refused (processStatus httpd (env.withStack n) ts px argv))

section Determined

variable {httpd : Httpd} {env : Surroundings} {ts : Tables} {px : Option Proxy} {mem : Mem} {stack n n' : Nodeinfo}

/-! ## The fields -/

theorem statusField_scan {key v : Str} {a : StatusRead} (h : Shows stack a.route n) :
    match scanField httpd key v a with
    | .ok a' => ∃ n', statusField httpd key v ⟨n, a.load⟩ = .ok ⟨n', a'.load⟩ ∧ Shows stack a'.route n'
    | .error e => statusField httpd key v ⟨n, a.load⟩ = .error e := by
  unfold scanField statusField
  by_cases hroute : caseEq key (ascii "JVMRoute") = true
  · rw [if_pos hroute, if_pos hroute]
    by_cases hlen : v.length ≥ httpd.routeSize
    · simp [hlen]
    · rw [if_neg hlen, if_neg hlen]
      exact ⟨setRoute n v, rfl, rfl, rfl⟩
  rw [if_neg hroute, if_neg hroute]
  by_cases hload : caseEq key (ascii "Load") = true
  · rw [if_pos hload, if_pos hload]
    by_cases hbad : scanInt v a.load < -1 ∨ scanInt v a.load > 100
    · simp [hbad]
    · simp only [if_neg hbad]
      exact ⟨n, rfl, h⟩
  · rw [if_neg hload, if_neg hload]

theorem statusFields_scan (ptr : List Nat) {a : StatusRead} (h : Shows stack a.route n) :
    match scanFields httpd mem ptr a with
    | .ok a' => ∃ n', statusFields httpd mem ptr ⟨n, a.load⟩ = .ok ⟨n', a'.load⟩ ∧ Shows stack a'.route n'
    | .error e => statusFields httpd mem ptr ⟨n, a.load⟩ = .error e := by
  induction ptr, a using scanFields.induct httpd mem generalizing n with
  | case1 a => exact ⟨n, rfl, h⟩
  | case2 a key hknown => simp [scanFields, statusFields, hknown]
  | case3 a key hknown => simp [scanFields, statusFields, hknown]
  | case4 key val rest a a' hfield ih =>
    have hstep := @statusField_scan httpd stack n (strAt mem key) (strAt mem val) a h
    rw [hfield] at hstep
    obtain ⟨n', hn', hshows⟩ := hstep
    have hrest := ih hshows
    simp only [scanFields, statusFields, hfield, hn']
    exact hrest
  | case5 key val rest a e hfield =>
    have hstep := @statusField_scan httpd stack n (strAt mem key) (strAt mem val) a h
    rw [hfield] at hstep
    simp only [scanFields, statusFields, hfield]
    simp only at hstep
    rw [hstep]

theorem scanFields_keeps (ptr : List Nat) {a a' : StatusRead} (hroute : a.route ≠ none)
    (h : scanFields httpd mem ptr a = .ok a') : a'.route ≠ none := by
  induction ptr, a using scanFields.induct httpd mem with
  | case1 a =>
    cases h
    exact hroute
  | case2 a key hknown => simp [scanFields, hknown] at h
  | case3 a key hknown => simp [scanFields, hknown] at h
  | case4 key val rest a a₁ hfield ih =>
    simp only [scanFields, hfield] at h
    apply ih _ h
    unfold scanField at hfield
    split at hfield
    · split at hfield
      · cases hfield
      · cases hfield
        simp [StatusRead.setRoute]
    split at hfield
    · split at hfield
      · cases hfield
      · cases hfield
        exact hroute
    · cases hfield
  | case5 key val rest a e hfield => simp [scanFields, hfield] at h

theorem load_not_route {key : Str} (h : caseEq key (ascii "Load") = true) : ¬ caseEq key (ascii "JVMRoute") = true := by
  intro hroute
  simp only [caseEq, beq_iff_eq] at h hroute
  rw [h] at hroute
  revert hroute
  decide

theorem OnlyLoads.scan {ptr : List Nat} {load : Int} (h : OnlyLoads mem ptr load) :
    ¬ NamesRoute mem ptr ∧ ((∃ load', scanFields httpd mem ptr ⟨none, load⟩ = .ok ⟨none, load'⟩) ∨
      scanFields httpd mem ptr ⟨none, load⟩ = .error .undefined) := by
  induction ptr, load using OnlyLoads.induct mem with
  | case1 load => exact ⟨id, Or.inl ⟨load, rfl⟩⟩
  | case2 key load =>
    have hload : caseEq (strAt mem key) (ascii "Load") = true := h
    have hknown : isStatusField (strAt mem key) = true := by simp [isStatusField, hload]
    exact ⟨load_not_route hload, Or.inr (by rw [scanFields, if_pos hknown])⟩
  | case3 key val rest load ih =>
    obtain ⟨hload, hge, hle, hrest⟩ := h
    obtain ⟨hnames, hscan⟩ := ih hrest
    have hroute := load_not_route hload
    have hfield : scanField httpd (strAt mem key) (strAt mem val) ⟨none, load⟩ =
        .ok ⟨none, scanInt (strAt mem val) load⟩ := by
      have hgood : ¬ (scanInt (strAt mem val) load < -1 ∨ scanInt (strAt mem val) load > 100) := by omega
      simp only [scanField, if_neg hroute, if_pos hload, if_neg hgood]
    refine ⟨fun hn => hn.elim hroute hnames, ?_⟩
    simp only [scanFields, hfield]
    exact hscan

theorem scan_of_not_onlyLoads {ptr : List Nat} {load : Int} (h : ¬ OnlyLoads mem ptr load) :
    (∃ e, scanFields httpd mem ptr ⟨none, load⟩ = .error (.error e)) ∨
      (NamesRoute mem ptr ∧ (scanFields httpd mem ptr ⟨none, load⟩ = .error .undefined ∨
        ∃ route load', scanFields httpd mem ptr ⟨none, load⟩ = .ok ⟨some route, load'⟩)) := by
  induction ptr, load using OnlyLoads.induct mem with
  | case1 load => exact absurd trivial h
  | case2 key load =>
    by_cases hknown : isStatusField (strAt mem key) = true
    · have hroute : caseEq (strAt mem key) (ascii "JVMRoute") = true := by
        have hload : ¬ caseEq (strAt mem key) (ascii "Load") = true := h
        simpa [isStatusField, hload] using hknown
      exact Or.inr ⟨hroute, Or.inl (by rw [scanFields, if_pos hknown])⟩
    · exact Or.inl ⟨.sbadfld (strAt mem key), by rw [scanFields, if_neg hknown]⟩
  | case3 key val rest load ih =>
    by_cases hroute : caseEq (strAt mem key) (ascii "JVMRoute") = true
    · by_cases hlen : (strAt mem val).length ≥ httpd.routeSize
      · refine Or.inl ⟨.sroubig, ?_⟩
        simp only [scanFields, scanField, if_pos hroute, if_pos hlen]
      · have hscan : scanFields httpd mem (key :: val :: rest) ⟨none, load⟩ =
            scanFields httpd mem rest ⟨some (strAt mem val), load⟩ := by
          simp only [scanFields, scanField, if_pos hroute, if_neg hlen, StatusRead.setRoute]
        rw [hscan]
        cases hrest : scanFields httpd mem rest ⟨some (strAt mem val), load⟩ with
        | error stop =>
          cases stop with
          | error e => exact Or.inl ⟨e, rfl⟩
          | undefined => exact Or.inr ⟨Or.inl hroute, Or.inl rfl⟩
        | ok a =>
          obtain ⟨route, load'⟩ := a
          have hkept := scanFields_keeps rest (by simp) hrest
          obtain ⟨route', rfl⟩ := Option.ne_none_iff_exists'.1 hkept
          exact Or.inr ⟨Or.inl hroute, Or.inr ⟨route', load', rfl⟩⟩
    · by_cases hload : caseEq (strAt mem key) (ascii "Load") = true
      · by_cases hbad : scanInt (strAt mem val) load < -1 ∨ scanInt (strAt mem val) load > 100
        · refine Or.inl ⟨.badLoad, ?_⟩
          simp only [scanFields, scanField, if_neg hroute, if_pos hload, if_pos hbad]
        · have hscan : scanFields httpd mem (key :: val :: rest) ⟨none, load⟩ =
              scanFields httpd mem rest ⟨none, scanInt (strAt mem val) load⟩ := by
            simp only [scanFields, scanField, if_neg hroute, if_pos hload, if_neg hbad]
          have hrest : ¬ OnlyLoads mem rest (scanInt (strAt mem val) load) :=
            fun hrest => h ⟨hload, by omega, by omega, hrest⟩
          rw [hscan]
          rcases ih hrest with herror | ⟨hnames, hread⟩
          · exact Or.inl herror
          · exact Or.inr ⟨Or.inr hnames, hread⟩
      · refine Or.inl ⟨.sbadfld (strAt mem key), ?_⟩
        simp only [scanFields, scanField, if_neg hroute, if_neg hload]

/-! ## The answer -/

theorem addBalancersWorkers_withStack (n : Nodeinfo) (i : Nat) (main : Bool) (servers : List Server) (ts : Tables) :
    addBalancersWorkers httpd (env.withStack n) i main servers ts =
      addBalancersWorkers httpd env i main servers ts := by
  induction servers generalizing main ts with
  | nil => rfl
  | cons sv rest ih =>
    simp only [addBalancersWorkers, ih]
    rfl

theorem isnodeUp_withStack (n : Nodeinfo) (id load : Int) (route : Str) :
    isnodeUp httpd (env.withStack n) ts px id load route = isnodeUp httpd env ts px id load route := by
  cases px with
  | none => rfl
  | some px =>
    have hisup : proxyNodeIsup httpd (env.withStack n) ts px id load = proxyNodeIsup httpd env ts px id load := by
      unfold proxyNodeIsup
      simp only [addBalancersWorkers_withStack]
      rfl
    simp only [isnodeUp, hisup]
    rfl

theorem readNode_of_route {m : Table Nodeinfo} {route : Str} (h : n.mess.jvmRoute = route ∧ n.mess.id = -1)
    (h' : n'.mess.jvmRoute = route ∧ n'.mess.id = -1) : (readNode m n).1 = (readNode m n').1 := by
  unfold readNode
  rw [if_pos h.2, if_pos h'.2]
  cases hfirst : m.first (hasRoute route) with
  | none =>
    rw [readBy_none (Node.locReadNode_eq n) (h.1 ▸ hfirst), readBy_none (Node.locReadNode_eq n') (h'.1 ▸ hfirst)]
  | some i =>
    obtain ⟨a, ha, -, -⟩ := first_eq_some hfirst
    simp only [readBy, doall_some (Node.locReadNode_eq n) (h.1 ▸ hfirst) ha,
      doall_some (Node.locReadNode_eq n') (h'.1 ▸ hfirst) ha]
    rfl

theorem processStatus_withStack (n : Nodeinfo) (argv : Argv) :
    processStatus httpd (env.withStack n) ts px argv =
      match statusFields httpd argv.mem argv.ptr ⟨n, -2⟩ with
      | .error (.error e) => ⟨ts, px, .failed e, none, []⟩
      | .error .undefined => ⟨ts, px, .undefined, none, []⟩
      | .ok args =>
        if args.nodeinfo.mess.jvmRoute = [] then ⟨ts, px, .failed .noRoute, none, []⟩
        else
          match (readNode ts.nodes args.nodeinfo).1 with
          | none => ⟨ts, px, .failed (.mnoderd args.nodeinfo.mess.jvmRoute), none, [.lock, .unlock]⟩
          | some i => isnodeUp httpd env ts px (ts.nodes.peek i).mess.id args.load args.nodeinfo.mess.jvmRoute := by
  unfold processStatus
  simp only [isnodeUp_withStack]
  rfl

theorem isnodeUp_outcome {id load : Int} {route : Str} {e : McmpError} :
    (isnodeUp httpd env ts px id load route).outcome ≠ .failed e := by
  unfold isnodeUp
  split
  · simp
  · simp only
    split <;> simp

/-- The answer to STATUS is that of the message and the tables exactly when the message is
more than fields Load with numbers that are accepted. -/
theorem status_determined_iff (httpd : Httpd) (env : Surroundings) (ts : Tables) (px : Option Proxy) (argv : Argv) :
    Determined httpd env ts px argv ↔ ¬ OnlyLoads argv.mem argv.ptr (-2) := by
  constructor
  · rintro ⟨hsame, hrejected⟩ hloads
    obtain ⟨hnames, hscan⟩ := @OnlyLoads.scan httpd argv.mem argv.ptr (-2) hloads
    rcases hscan with ⟨load, hscan⟩ | hscan
    · -- One stack holds a route, the other none.
      have hread : ∀ n, statusFields httpd argv.mem argv.ptr ⟨n, -2⟩ = .ok ⟨n, load⟩ := by
        intro n
        have h := @statusFields_scan httpd argv.mem n n argv.ptr ⟨none, -2⟩ rfl
        rw [hscan] at h
        obtain ⟨n', hn', hshows⟩ := h
        rw [hn', hshows]
      have hunset := hsame (routeNode [] (-1)) (routeNode (ascii "x") (-1))
      rw [processStatus_withStack, processStatus_withStack, hread, hread] at hunset
      have hempty : (routeNode [] (-1)).mess.jvmRoute = [] := rfl
      have hset : (routeNode (ascii "x") (-1)).mess.jvmRoute ≠ [] := by decide
      simp only [if_pos hempty, if_neg hset] at hunset
      cases hfound : (readNode ts.nodes (routeNode (ascii "x") (-1))).1 with
      | none =>
        rw [hfound] at hunset
        cases congrArg CommandResult.outcome hunset
      | some i =>
        rw [hfound] at hunset
        exact isnodeUp_outcome (congrArg CommandResult.outcome hunset).symm
    · obtain ⟨e, he⟩ := hrejected hnames default
      have h := @statusFields_scan httpd argv.mem default default argv.ptr ⟨none, -2⟩ rfl
      rw [hscan] at h
      rw [processStatus_withStack, h] at he
      cases he
  · intro hloads
    have hread : ∀ n, _ := fun n => @statusFields_scan httpd argv.mem n n argv.ptr ⟨none, -2⟩ rfl
    rcases @scan_of_not_onlyLoads httpd argv.mem argv.ptr (-2) hloads with ⟨e, he⟩ | ⟨hnames, hscan⟩
    · rw [he] at hread
      have hfailed : ∀ n, processStatus httpd (env.withStack n) ts px argv = ⟨ts, px, .failed e, none, []⟩ := by
        intro n
        rw [processStatus_withStack, hread n]
      exact ⟨fun n n' => (hfailed n).trans (hfailed n').symm, fun _ n => ⟨e, by rw [hfailed n]⟩⟩
    · refine ⟨fun n n' => ?_, fun h => absurd hnames h⟩
      rw [processStatus_withStack, processStatus_withStack]
      rcases hscan with hscan | ⟨route, load, hscan⟩
      · rw [hscan] at hread
        rw [hread n, hread n']
      · rw [hscan] at hread
        obtain ⟨m, hm, hshows⟩ := hread n
        obtain ⟨m', hm', hshows'⟩ := hread n'
        rw [hm, hm']
        simp only [readNode_of_route hshows hshows', hshows.1, hshows'.1]

end Determined

/-! ## Load=1 -/

def noAnswers : Surroundings where
  now := 0
  creatBal := .all
  restartTime := 0
  enableOptions := true
  sslEnable := true
  contact s := ⟨s.status, 0, 0, true⟩
  ajpPing _ _ := true
  stack := default

def onlyLoad : Argv := Argv.ofTokens [ascii "Load", ascii "1"]

/-- The message is refused when the stack holds no route, and looks up the route it holds
otherwise. -/
theorem load_without_route :
    ¬ ∀ (httpd : Httpd) (env : Surroundings) (ts : Tables) (px : Option Proxy) (argv : Argv),
      Determined httpd env ts px argv := by
  intro h
  have hsame := (h plainHttpd noAnswers (emptyTables ⟨1, 1, 1, 1, 1⟩) none onlyLoad).1 (routeNode [] (-1))
    (routeNode (ascii "x") (-1))
  have hanswers : (processStatus plainHttpd (noAnswers.withStack (routeNode [] (-1))) (emptyTables ⟨1, 1, 1, 1, 1⟩) none
        onlyLoad).outcome = .failed .noRoute ∧
      (processStatus plainHttpd (noAnswers.withStack (routeNode (ascii "x") (-1))) (emptyTables ⟨1, 1, 1, 1, 1⟩) none
        onlyLoad).outcome = .failed (.mnoderd (ascii "x")) := by
    decide +kernel
  have houtcome := hanswers.1.symm.trans ((congrArg CommandResult.outcome hsame).trans hanswers.2)
  cases houtcome

end ModCluster
