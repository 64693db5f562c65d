import Mathlib.Data.List.Induction
import ModCluster.Tokens

/-!
# The fields of an application command

What an application command takes from a message does not depend on where the message
lies, on the fields that are none of the command's, or on the memory behind it, as long
as its lists end where they should.
-/

open CString Slotmem

namespace ModCluster

/-! ## Lists in a message -/

section Loop

variable {lenLimit : Nat} (rest : List Byte) (current start len : Nat)

theorem parseListLoop_nul :
    parseListLoop lenLimit (0 :: rest) current start len = parseListLoop.stop lenLimit start len := by
  unfold parseListLoop
  exact if_pos rfl

theorem parseListLoop_comma_zero (hlim : lenLimit = 0) :
    parseListLoop lenLimit (ch ',' :: rest) current start len = { starts := [start], nuls := [current], ret := 1 } := by
  rw [parseListLoop.eq_def]
  simp only
  rw [if_neg (by decide), if_pos trivial, if_pos hlim]

theorem parseListLoop_comma_nil (hlim : lenLimit ≠ 0) :
    parseListLoop lenLimit [ch ','] current start len =
      (parseListLoop.stop lenLimit (current + 1) 0).push start current := by
  rw [parseListLoop.eq_def]
  simp only
  rw [if_neg (by decide), if_pos trivial, if_neg hlim]

theorem parseListLoop_comma (hlim : lenLimit ≠ 0) (b : Byte) :
    parseListLoop lenLimit (ch ',' :: b :: rest) current start len =
      (parseListLoop lenLimit rest (current + 2) (current + 1) 0).push start current := by
  rw [parseListLoop.eq_def]
  simp only
  rw [if_neg (by decide), if_pos trivial, if_neg hlim]

theorem parseListLoop_char {b : Byte} (hb : b ≠ 0) (hcomma : b ≠ ch ',') :
    parseListLoop lenLimit (b :: rest) current start len =
      if len + 1 ≥ lenLimit then { starts := [], nuls := [], ret := 1 }
      else parseListLoop lenLimit rest (current + 1) start (len + 1) := by
  rw [parseListLoop.eq_def]
  simp only
  rw [if_neg hb, if_neg hcomma]

end Loop

def Split.shift (n : Nat) (s : Split) : Split :=
  { starts := s.starts.map (n + ·), nuls := s.nuls.map (n + ·), ret := s.ret }

theorem parseListLoop_shift (lenLimit n : Nat) (rest : List Byte) (current start len : Nat) :
    parseListLoop lenLimit rest (n + current) (n + start) len =
      (parseListLoop lenLimit rest current start len).shift n := by
  have hstop (start len : Nat) :
      parseListLoop.stop lenLimit (n + start) len = (parseListLoop.stop lenLimit start len).shift n := by
    unfold parseListLoop.stop
    split
    · rfl
    split <;> rfl
  induction rest, current, start, len using parseListLoop.induct lenLimit with
  | case1 current start len => exact hstop start len
  | case2 rest current start len =>
    rw [parseListLoop_nul, parseListLoop_nul]
    exact hstop start len
  | case3 rest current start len hlim hne =>
    rw [parseListLoop_comma_zero _ _ _ _ hlim, parseListLoop_comma_zero _ _ _ _ hlim]
    rfl
  | case4 current start len hlim hne =>
    rw [parseListLoop_comma_nil _ _ _ hlim, parseListLoop_comma_nil _ _ _ hlim]
    exact congrArg (Split.push (n + start) (n + current)) (hstop (current + 1) 0)
  | case5 current start len hlim b rest hne ih =>
    rw [parseListLoop_comma _ _ _ _ hlim, parseListLoop_comma _ _ _ _ hlim]
    exact congrArg (Split.push (n + start) (n + current)) ih
  | case6 b rest current start len hb hcomma hbig =>
    rw [parseListLoop_char _ _ _ _ hb hcomma, parseListLoop_char _ _ _ _ hb hcomma, if_pos hbig, if_pos hbig]
    rfl
  | case7 b rest current start len hb hcomma hbig ih =>
    rw [parseListLoop_char _ _ _ _ hb hcomma, parseListLoop_char _ _ _ _ hb hcomma, if_neg hbig, if_neg hbig]
    exact ih

theorem parseList_shift (pre m : Mem) (val lenLimit : Nat) :
    parseListToArrayWithChecks (pre ++ m) (pre.length + val) lenLimit =
      (parseListToArrayWithChecks m val lenLimit).shift pre.length := by
  unfold parseListToArrayWithChecks
  rw [List.drop_length_add_append]
  exact parseListLoop_shift lenLimit pre.length _ val val 0

def Lists.shift (pre : Mem) (st : Lists) : Lists where
  mem := pre ++ st.mem
  contexts := st.contexts.map (pre.length + ·)
  aliases := st.aliases.map (pre.length + ·)

theorem processContextAlias_shift (pre : Mem) (key val : Nat) (st : Lists) :
    processContextAlias (pre.length + key) (pre.length + val) (st.shift pre) =
      (processContextAlias key val st).map (Lists.shift pre) := by
  have hkey : strAt (st.shift pre).mem (pre.length + key) = strAt st.mem key := strAt_append pre st.mem key
  have hval : strAt (st.shift pre).mem (pre.length + val) = strAt st.mem val := strAt_append pre st.mem val
  have hwrite : write (st.shift pre).mem (pre.length + val) (lower (strAt st.mem val)) =
      pre ++ write st.mem val (lower (strAt st.mem val)) := write_append pre st.mem val _
  have hlist : parseListToArrayWithChecks (st.shift pre).mem (pre.length + val) CONTEXTSZ =
      (parseListToArrayWithChecks st.mem val CONTEXTSZ).shift pre.length := parseList_shift pre st.mem val _
  unfold processContextAlias
  simp only [hkey, hval, hwrite, hlist, parseList_shift]
  split
  · generalize parseListToArrayWithChecks (write st.mem val _) val HOSTALIASZ = s
    have hret : (s.shift pre.length).ret = s.ret := rfl
    have hmem := putNuls_append pre (write st.mem val (lower (strAt st.mem val))) s.nuls
    rw [hret]
    split
    · show Except.ok _ = Except.ok _
      simp only [Split.shift, Lists.shift, hmem, List.map_append]
    · split <;> rfl
  split
  · generalize parseListToArrayWithChecks st.mem val CONTEXTSZ = s
    have hret : (s.shift pre.length).ret = s.ret := rfl
    have hmem := putNuls_append pre st.mem s.nuls
    rw [hret]
    split
    · show Except.ok _ = Except.ok _
      simp only [Split.shift, Lists.shift, hmem, List.map_append]
    · split <;> rfl
  · rfl

theorem appFields_shift (httpd : Httpd) (pre : Mem) (ptr : List Nat) (route : Str) (st : Lists) :
    appFields httpd (ptr.map (pre.length + ·)) route (st.shift pre) =
      (appFields httpd ptr route st).map fun r => (r.1, r.2.shift pre) := by
  induction ptr using List.twoStepInduction generalizing route st with
  | nil => rfl
  | singleton key => rfl
  | cons_cons key val rest ih _ =>
    have hkey : strAt (st.shift pre).mem (pre.length + key) = strAt st.mem key := strAt_append pre st.mem key
    have hval : strAt (st.shift pre).mem (pre.length + val) = strAt st.mem val := strAt_append pre st.mem val
    rw [List.map_cons, List.map_cons, appFields, appFields]
    simp only [hkey, hval, processContextAlias_shift]
    split
    · rfl
    · cases processContextAlias key val st with
      | error e => rfl
      | ok st' => exact ih _ st'

theorem parseApp_shift (httpd : Httpd) (glob : Bool) (pre : Mem) (argv : Argv) :
    parseApp httpd glob { mem := pre ++ argv.mem, ptr := argv.ptr.map (pre.length + ·) } =
      parseApp httpd glob argv := by
  have hfields := appFields_shift httpd pre argv.ptr [] { mem := argv.mem, contexts := [], aliases := [] }
  have hread (st : Lists) (ps : List Nat) :
      (ps.map (pre.length + ·)).map (strAt (pre ++ st.mem)) = ps.map (strAt st.mem) := by
    rw [List.map_map]
    exact List.map_congr_left fun p _ => strAt_append pre st.mem p
  unfold parseApp
  rw [show appFields httpd (argv.ptr.map (pre.length + ·)) [] { mem := pre ++ argv.mem, contexts := [], aliases := [] } =
    _ from hfields]
  cases appFields httpd argv.ptr [] { mem := argv.mem, contexts := [], aliases := [] } with
  | error e => rfl
  | ok r =>
    obtain ⟨route, st⟩ := r
    simp only [Except.map, Lists.shift, List.map_eq_nil_iff, hread]

/-- A key that an application command passes over. -/
def isOtherKey (key : Str) : Bool :=
  !caseEq key (ascii "JVMRoute") && !caseEq key (ascii "Alias") && !caseEq key (ascii "Context")

theorem appFields_other (httpd : Httpd) {key val : Nat} {rest : List Nat} {route : Str} {st : Lists}
    (h : isOtherKey (strAt st.mem key) = true) :
    appFields httpd (key :: val :: rest) route st = appFields httpd rest route st := by
  simp only [isOtherKey, Bool.and_eq_true, Bool.not_eq_true'] at h
  obtain ⟨⟨hroute, halias⟩, hcontext⟩ := h
  have hpass : processContextAlias key val st = .ok st := by
    unfold processContextAlias
    simp only [halias, hcontext, Bool.false_eq_true, if_false]
  rw [appFields]
  simp only [hroute, Bool.false_eq_true, false_and, if_false, hpass]

/-- The message of plain tokens, and the memory `behind` it. -/
def tokenArgv (tokens : List Str) (behind : Mem) : Argv where
  mem := tokenMem tokens ++ behind
  ptr := tokenOffsets 0 tokens

theorem tokenArgv_append (tokens more : List Str) (behind : Mem) :
    tokenArgv (tokens ++ more) behind =
      { mem := tokenMem tokens ++ (tokenArgv more behind).mem
        ptr := tokenOffsets 0 tokens ++ (tokenArgv more behind).ptr.map ((tokenMem tokens).length + ·) } := by
  have hmem : tokenMem (tokens ++ more) = tokenMem tokens ++ tokenMem more := List.flatMap_append
  have hshift := tokenOffsets_shift (tokenMem tokens).length 0 more
  rw [Nat.add_zero] at hshift
  unfold tokenArgv
  rw [tokenOffsets_append, hmem, List.append_assoc, Nat.zero_add, hshift]

theorem passes_extra {β : Type} {mem : Mem} (loop : List Nat → β)
    (hpass : ∀ key val rest, isOtherKey (strAt mem key) = true → loop (key :: val :: rest) = loop rest)
    {extra : List (Str × Str)} (h : ∀ p ∈ extra, 0 ∉ p.1 ∧ isOtherKey p.1 = true) (pre rest : Mem) (more : List Nat)
    (hmem : mem = pre ++ (tokenMem (pairTokens extra) ++ rest)) :
    loop (tokenOffsets pre.length (pairTokens extra) ++ more) = loop more := by
  induction extra generalizing pre with
  | nil => rfl
  | cons p extra ih =>
    obtain ⟨hp, hextra⟩ := List.forall_mem_cons.1 h
    have htokens : pairTokens (p :: extra) = p.1 :: p.2 :: pairTokens extra := rfl
    have hkey : strAt mem pre.length = p.1 := by
      rw [hmem, htokens, tokenMem_cons, List.append_assoc]
      exact strAt_token hp.1 pre _
    have hlen : pre.length + p.1.length + 1 + p.2.length + 1 = (pre ++ tokenMem [p.1, p.2]).length := by
      rw [List.length_append, tokenMem_cons, tokenMem_cons]
      simp only [List.length_append, List.length_cons, tokenMem, List.flatMap_nil, List.length_nil]
      omega
    have hrest : mem = pre ++ tokenMem [p.1, p.2] ++ (tokenMem (pairTokens extra) ++ rest) := by
      rw [hmem, htokens]
      simp [tokenMem]
    rw [htokens, tokenOffsets, tokenOffsets, hlen, List.cons_append, List.cons_append,
      hpass _ _ _ (by rw [hkey]; exact hp.2)]
    exact ih hextra _ hrest

theorem parseApp_extra (httpd : Httpd) (glob : Bool) {extra : List (Str × Str)}
    (h : ∀ p ∈ extra, 0 ∉ p.1 ∧ isOtherKey p.1 = true) (between : Mem) (argv : Argv) :
    parseApp httpd glob
        { mem := tokenMem (pairTokens extra) ++ between ++ argv.mem
          ptr := tokenOffsets 0 (pairTokens extra) ++
            argv.ptr.map ((tokenMem (pairTokens extra) ++ between).length + ·) } =
      parseApp httpd glob argv := by
  refine Eq.trans ?_ (parseApp_shift httpd glob (tokenMem (pairTokens extra) ++ between) argv)
  unfold parseApp
  have hfields := passes_extra
    (fun ptr => appFields httpd ptr []
      { mem := tokenMem (pairTokens extra) ++ between ++ argv.mem, contexts := [], aliases := [] })
    (fun _ _ _ hkey => appFields_other httpd hkey) h [] (between ++ argv.mem)
    (argv.ptr.map ((tokenMem (pairTokens extra) ++ between).length + ·)) (List.append_assoc _ _ _)
  rw [List.length_nil] at hfields
  rw [hfields]

/-- A message that names a node and nothing else. -/
def routeTokens (j : Str) : List Str := [ascii "JVMRoute", j]

theorem appFields_route (httpd : Httpd) {j : Str} (hj : 0 ∉ j) (tokens : List Str) (behind : Mem) :
    appFields httpd (tokenArgv (routeTokens j ++ tokens) behind).ptr []
        { mem := (tokenArgv (routeTokens j ++ tokens) behind).mem, contexts := [], aliases := [] } =
      if j.length ≥ httpd.routeSize then .error (.error .sroubig)
      else (appFields httpd (tokenArgv tokens behind).ptr j
        { mem := (tokenArgv tokens behind).mem, contexts := [], aliases := [] }).map
          fun r => (r.1, r.2.shift (tokenMem (routeTokens j))) := by
  have hkey : strAt (tokenMem (routeTokens j) ++ (tokenArgv tokens behind).mem) 0 = ascii "JVMRoute" := by
    rw [routeTokens, tokenMem_cons, List.append_assoc]
    exact strAt_zero (by decide) _
  have hval : strAt (tokenMem (routeTokens j) ++ (tokenArgv tokens behind).mem) (0 + (ascii "JVMRoute").length + 1) = j := by
    have hsplit : tokenMem (routeTokens j) ++ (tokenArgv tokens behind).mem =
        tokenMem [ascii "JVMRoute"] ++ (j ++ 0 :: (tokenArgv tokens behind).mem) := by
      simp [routeTokens, tokenMem]
    rw [hsplit]
    exact strAt_token hj (tokenMem [ascii "JVMRoute"]) _
  have hpass (val : Nat) : processContextAlias 0 val
      { mem := tokenMem (routeTokens j) ++ (tokenArgv tokens behind).mem, contexts := [], aliases := [] } =
        .ok { mem := tokenMem (routeTokens j) ++ (tokenArgv tokens behind).mem, contexts := [], aliases := [] } := by
    unfold processContextAlias
    simp only [hkey]
    rw [if_neg (by decide), if_neg (by decide)]
  have hshift := appFields_shift httpd (tokenMem (routeTokens j)) (tokenArgv tokens behind).ptr j
    { mem := (tokenArgv tokens behind).mem, contexts := [], aliases := [] }
  rw [tokenArgv_append, ← hshift]
  have hptr : tokenOffsets 0 (routeTokens j) = [0, 0 + (ascii "JVMRoute").length + 1] := rfl
  rw [hptr, List.cons_append, List.cons_append, List.nil_append, appFields]
  simp only [hkey, hval, hpass, show caseEq (ascii "JVMRoute") (ascii "JVMRoute") = true from by decide, true_and,
    if_true]
  rfl

theorem parseApp_route (httpd : Httpd) (glob : Bool) {j : Str} (hj : 0 ∉ j) (behind : Mem) :
    parseApp httpd glob (tokenArgv (routeTokens j) behind) =
      if j.length ≥ httpd.routeSize then .error (.error .sroubig)
      else if j = [] then .error (.error .sroubad)
      else if glob then .ok { jvmRoute := j, aliases := [], contexts := [] }
      else .error (.error .noconal) := by
  have hfields := appFields_route httpd hj [] behind
  rw [List.append_nil] at hfields
  unfold parseApp
  rw [hfields]
  by_cases hbig : j.length ≥ httpd.routeSize
  · rw [if_pos hbig, if_pos hbig]
  rw [if_neg hbig, if_neg hbig]
  show (if j = [] then _ else _) = _
  split
  · rfl
  cases glob with
  | true => rfl
  | false => rfl

/-! ## Behind a message -/

/-- Memory that ends in a NUL. -/
def Ended (m : Mem) : Prop := m.getLast? = some 0

section Behind

variable {m : Mem} (behind : Mem)

theorem Ended.drop (h : Ended m) {p : Nat} (hp : p < m.length) : Ended (m.drop p) := by
  unfold Ended at *
  rw [List.getLast?_drop, if_neg (by omega)]
  exact h

theorem Ended.append {m' : Mem} (h : Ended m') : Ended (m ++ m') := by
  unfold Ended at *
  rw [List.getLast?_append, h]
  rfl

theorem Ended.nul_mem (h : Ended m) : 0 ∈ m := List.mem_of_getLast? h

theorem takeWhile_nul_lt (h : 0 ∈ m) : (m.takeWhile (· != 0)).length < m.length := by
  refine Nat.lt_of_le_of_ne (List.takeWhile_prefix _).length_le fun heq => ?_
  have hself := (List.takeWhile_prefix (· != 0)).eq_of_length heq
  exact absurd (List.takeWhile_eq_self_iff.1 hself 0 h) (by decide)

theorem Ended.strAt_length (h : Ended m) {p : Nat} (hp : p < m.length) : p + (strAt m p).length < m.length := by
  have hlt := takeWhile_nul_lt (h.drop hp).nul_mem
  rw [List.length_drop] at hlt
  unfold strAt
  omega

theorem Ended.strAt_append (h : Ended m) {p : Nat} (hp : p < m.length) : strAt (m ++ behind) p = strAt m p := by
  have hlt := takeWhile_nul_lt (h.drop hp).nul_mem
  unfold strAt
  rw [List.drop_append_of_le_length (Nat.le_of_lt hp), List.takeWhile_append, if_neg (Nat.ne_of_lt hlt)]

theorem write_behind {p : Nat} {s : Str} (hp : p + s.length ≤ m.length) :
    write (m ++ behind) p s = write m p s ++ behind := by
  unfold write
  rw [List.take_append_of_le_length (by omega), List.drop_append_of_le_length hp]
  simp only [List.append_assoc]

theorem write_length {p : Nat} {s : Str} (hp : p + s.length ≤ m.length) : (write m p s).length = m.length := by
  unfold write
  simp only [List.length_append, List.length_take, List.length_drop]
  omega

theorem Ended.write (h : Ended m) {p : Nat} {s : Str} (hp : p + s.length < m.length) : Ended (CString.write m p s) :=
  (h.drop hp).append

theorem putNuls_length (nuls : List Nat) : (putNuls m nuls).length = m.length := by
  unfold putNuls
  induction nuls generalizing m with
  | nil => rfl
  | cons p rest ih => rw [List.foldl_cons, ih, List.length_set]

theorem putNuls_behind {nuls : List Nat} (h : ∀ p ∈ nuls, p < m.length) :
    putNuls (m ++ behind) nuls = putNuls m nuls ++ behind := by
  unfold putNuls
  induction nuls generalizing m with
  | nil => rfl
  | cons p rest ih =>
    obtain ⟨hp, hrest⟩ := List.forall_mem_cons.1 h
    rw [List.foldl_cons, List.foldl_cons, List.set_append_left _ _ hp]
    exact ih fun q hq => by
      rw [List.length_set]
      exact hrest q hq

theorem Ended.putNuls (h : Ended m) (nuls : List Nat) : Ended (ModCluster.putNuls m nuls) := by
  unfold ModCluster.putNuls
  induction nuls generalizing m with
  | nil => exact h
  | cons p rest ih =>
    refine ih ?_
    unfold Ended at *
    rw [List.getLast?_eq_getElem?] at *
    rw [List.length_set, List.getElem?_set]
    split
    · rename_i hp
      rw [if_pos]
      rw [hp]
      exact (List.getElem?_eq_some_iff.1 h).1
    · exact h

end Behind

section LoopBounds

variable {lenLimit : Nat}

theorem stop_nuls (start len : Nat) : (parseListLoop.stop lenLimit start len).nuls = [] := by
  unfold parseListLoop.stop
  split
  · rfl
  split <;> rfl

theorem stop_of_ret {start len : Nat} (h : (parseListLoop.stop lenLimit start len).ret = 0) :
    len ≠ 0 ∧ (parseListLoop.stop lenLimit start len).starts = [start] := by
  unfold parseListLoop.stop at h ⊢
  split at h
  · cases h
  split at h
  · cases h
  · rename_i hlim hlen
    rw [if_neg hlim, if_neg hlen]
    exact ⟨hlen, rfl⟩

theorem parseListLoop_nuls (rest : List Byte) (current start len : Nat) :
    ∀ p ∈ (parseListLoop lenLimit rest current start len).nuls, p < current + rest.length := by
  induction rest, current, start, len using parseListLoop.induct lenLimit with
  | case1 current start len =>
    intro p hp
    rw [parseListLoop, stop_nuls] at hp
    cases hp
  | case2 rest current start len =>
    intro p hp
    rw [parseListLoop_nul, stop_nuls] at hp
    cases hp
  | case3 rest current start len hlim hne =>
    intro p hp
    rw [parseListLoop_comma_zero _ _ _ _ hlim, List.mem_singleton] at hp
    rw [hp, List.length_cons]
    omega
  | case4 current start len hlim hne =>
    intro p hp
    rw [parseListLoop_comma_nil _ _ _ hlim, Split.push, stop_nuls, List.mem_singleton] at hp
    rw [hp, List.length_cons]
    omega
  | case5 current start len hlim b rest hne ih =>
    intro p hp
    rw [parseListLoop_comma _ _ _ _ hlim, Split.push, List.mem_cons] at hp
    rw [List.length_cons, List.length_cons]
    rcases hp with rfl | hp
    · omega
    · have := ih p hp
      omega
  | case6 b rest current start len hb hcomma hbig =>
    intro p hp
    rw [parseListLoop_char _ _ _ _ hb hcomma, if_pos hbig] at hp
    cases hp
  | case7 b rest current start len hb hcomma hbig ih =>
    intro p hp
    rw [parseListLoop_char _ _ _ _ hb hcomma, if_neg hbig] at hp
    have := ih p hp
    rw [List.length_cons]
    omega

theorem parseListLoop_starts (rest : List Byte) (current start len : Nat)
    (hret : (parseListLoop lenLimit rest current start len).ret = 0) :
    (parseListLoop lenLimit rest current start len).starts ≠ [] ∧
      ∀ p ∈ (parseListLoop lenLimit rest current start len).starts, p = start ∨ p < current + rest.length := by
  have hstop {start len : Nat} (h : (parseListLoop.stop lenLimit start len).ret = 0) (k : Nat) :
      (parseListLoop.stop lenLimit start len).starts ≠ [] ∧
        ∀ p ∈ (parseListLoop.stop lenLimit start len).starts, p = start ∨ p < k := by
    rw [(stop_of_ret h).2]
    exact ⟨List.cons_ne_nil _ _, fun p hp => Or.inl (List.mem_singleton.1 hp)⟩
  induction rest, current, start, len using parseListLoop.induct lenLimit with
  | case1 current start len => exact hstop hret _
  | case2 rest current start len =>
    rw [parseListLoop_nul] at hret ⊢
    exact hstop hret _
  | case3 rest current start len hlim hne =>
    rw [parseListLoop_comma_zero _ _ _ _ hlim] at hret
    cases hret
  | case4 current start len hlim hne =>
    rw [parseListLoop_comma_nil _ _ _ hlim] at hret
    exact absurd rfl (stop_of_ret hret).1
  | case5 current start len hlim b rest hne ih =>
    rw [parseListLoop_comma _ _ _ _ hlim] at hret ⊢
    refine ⟨List.cons_ne_nil _ _, fun p hp => ?_⟩
    rw [List.length_cons, List.length_cons]
    rcases List.mem_cons.1 hp with rfl | hp
    · exact Or.inl rfl
    · rcases (ih hret).2 p hp with hp | hp
      · right
        omega
      · right
        omega
  | case6 b rest current start len hb hcomma hbig =>
    rw [parseListLoop_char _ _ _ _ hb hcomma, if_pos hbig] at hret
    cases hret
  | case7 b rest current start len hb hcomma hbig ih =>
    rw [parseListLoop_char _ _ _ _ hb hcomma, if_neg hbig] at hret ⊢
    refine ⟨(ih hret).1, fun p hp => ?_⟩
    rw [List.length_cons]
    rcases (ih hret).2 p hp with hp | hp
    · exact Or.inl hp
    · right
      omega

theorem ended_cons {b : Byte} {rest : List Byte} (h : Ended (b :: rest)) (hne : rest ≠ []) : Ended rest := by
  unfold Ended at h
  rw [List.getLast?_cons_of_ne_nil hne] at h
  exact h

/-- A list that is accepted as it stands is accepted alike whatever comes behind it. Past
the last NUL the loop finds an element that is empty, and refuses it. -/
theorem parseListLoop_behind (behind : Mem) (rest : List Byte) (current start len : Nat)
    (hend : rest = [] ∧ len = 0 ∨ Ended rest) (hret : (parseListLoop lenLimit rest current start len).ret = 0) :
    parseListLoop lenLimit (rest ++ behind) current start len = parseListLoop lenLimit rest current start len := by
  induction rest, current, start, len using parseListLoop.induct lenLimit with
  | case1 current start len =>
    rcases hend with hend | hend
    · exact absurd hend.2 (stop_of_ret hret).1
    · cases hend
  | case2 rest current start len => rw [List.cons_append, parseListLoop_nul, parseListLoop_nul]
  | case3 rest current start len hlim hne =>
    rw [parseListLoop_comma_zero _ _ _ _ hlim] at hret
    cases hret
  | case4 current start len hlim hne =>
    rw [parseListLoop_comma_nil _ _ _ hlim] at hret
    exact absurd rfl (stop_of_ret hret).1
  | case5 current start len hlim b rest hne ih =>
    rw [parseListLoop_comma _ _ _ _ hlim] at hret
    have hend : Ended (ch ',' :: b :: rest) := hend.resolve_left fun h => List.cons_ne_nil _ _ h.1
    have hrest : rest = [] ∧ (0 : Nat) = 0 ∨ Ended rest := by
      by_cases hnil : rest = []
      · exact Or.inl ⟨hnil, rfl⟩
      · exact Or.inr (ended_cons (ended_cons hend (List.cons_ne_nil _ _)) hnil)
    rw [List.cons_append, List.cons_append, parseListLoop_comma _ _ _ _ hlim, parseListLoop_comma _ _ _ _ hlim,
      ih hrest hret]
  | case6 b rest current start len hb hcomma hbig =>
    rw [parseListLoop_char _ _ _ _ hb hcomma, if_pos hbig] at hret
    cases hret
  | case7 b rest current start len hb hcomma hbig ih =>
    rw [parseListLoop_char _ _ _ _ hb hcomma, if_neg hbig] at hret
    have hend : Ended (b :: rest) := hend.resolve_left fun h => List.cons_ne_nil _ _ h.1
    have hne : rest ≠ [] := by
      rintro rfl
      exact hb (Option.some.inj hend)
    rw [List.cons_append, parseListLoop_char _ _ _ _ hb hcomma, if_neg hbig, parseListLoop_char _ _ _ _ hb hcomma,
      if_neg hbig]
    exact ih (Or.inr (ended_cons hend hne)) hret

end LoopBounds

/-! ### Whole messages -/

/-- The lists that have been read lie in the memory, and that ends in a NUL. -/
structure Lists.Within (st : Lists) : Prop where
  ended : Ended st.mem
  contexts : ∀ p ∈ st.contexts, p < st.mem.length
  aliases : ∀ p ∈ st.aliases, p < st.mem.length

def Lists.extend (st : Lists) (behind : Mem) : Lists := { st with mem := st.mem ++ behind }

section Messages

variable {httpd : Httpd} {glob : Bool} {st st' : Lists} {key val : Nat} (behind : Mem)

theorem parseList_starts {m : Mem} {val lenLimit : Nat} (hval : val < m.length)
    (hret : (parseListToArrayWithChecks m val lenLimit).ret = 0) :
    ∀ p ∈ (parseListToArrayWithChecks m val lenLimit).starts, p < m.length := by
  intro p hp
  unfold parseListToArrayWithChecks at hp hret
  rcases (parseListLoop_starts _ _ _ _ hret).2 p hp with hp | hp
  · omega
  · rw [List.length_drop] at hp
    omega

theorem parseList_nuls {m : Mem} {val lenLimit : Nat} (hval : val < m.length) :
    ∀ p ∈ (parseListToArrayWithChecks m val lenLimit).nuls, p < m.length := by
  intro p hp
  unfold parseListToArrayWithChecks at hp
  have := parseListLoop_nuls _ _ _ _ p hp
  rw [List.length_drop] at this
  omega

theorem parseList_behind {m : Mem} {val lenLimit : Nat} (hend : Ended m) (hval : val < m.length)
    (hret : (parseListToArrayWithChecks m val lenLimit).ret = 0) :
    parseListToArrayWithChecks (m ++ behind) val lenLimit = parseListToArrayWithChecks m val lenLimit := by
  unfold parseListToArrayWithChecks at *
  rw [List.drop_append_of_le_length (Nat.le_of_lt hval)]
  exact parseListLoop_behind behind _ _ _ _ (Or.inr (hend.drop hval)) hret

theorem processContextAlias_behind (hw : st.Within) (hkey : key < st.mem.length) (hval : val < st.mem.length)
    (h : processContextAlias key val st = .ok st') :
    processContextAlias key val (st.extend behind) = .ok (st'.extend behind) ∧ st'.Within ∧
      st'.mem.length = st.mem.length := by
  have hk : strAt (st.extend behind).mem key = strAt st.mem key := hw.ended.strAt_append behind hkey
  have hv : strAt (st.extend behind).mem val = strAt st.mem val := hw.ended.strAt_append behind hval
  have hlen : val + (lower (strAt st.mem val)).length < st.mem.length := by
    rw [lower, List.length_map]
    exact hw.ended.strAt_length hval
  unfold processContextAlias at h ⊢
  simp only [hk, hv] at h ⊢
  split at h
  · rename_i halias
    rw [if_pos halias]
    have hwrite : write (st.extend behind).mem val (lower (strAt st.mem val)) =
        write st.mem val (lower (strAt st.mem val)) ++ behind := write_behind behind (Nat.le_of_lt hlen)
    have hmem := write_length (Nat.le_of_lt hlen)
    have hend := hw.ended.write hlen
    rw [hwrite]
    generalize write st.mem val (lower (strAt st.mem val)) = m at h hmem hend ⊢
    rw [← hmem] at hval
    split at h
    swap
    · split at h <;> cases h
    rename_i hret
    cases h
    rw [parseList_behind behind hend hval hret, if_pos hret, putNuls_behind behind (parseList_nuls hval)]
    refine ⟨rfl, ⟨hend.putNuls _, fun p hp => ?_, fun p hp => ?_⟩, (putNuls_length _).trans hmem⟩
    · rw [putNuls_length, hmem]
      exact hw.contexts p hp
    · rw [putNuls_length]
      rcases List.mem_append.1 hp with hp | hp
      · rw [hmem]
        exact hw.aliases p hp
      · exact parseList_starts hval hret p hp
  split at h
  · rename_i halias hcontext
    rw [if_neg halias, if_pos hcontext]
    split at h
    swap
    · split at h <;> cases h
    rename_i hret
    cases h
    show (if (parseListToArrayWithChecks (st.mem ++ behind) val CONTEXTSZ).ret = 0 then _ else _) = _ ∧ _
    rw [parseList_behind behind hw.ended hval hret, if_pos hret]
    refine ⟨?_, ⟨hw.ended.putNuls _, fun p hp => ?_, fun p hp => ?_⟩, putNuls_length _⟩
    · show Except.ok _ = Except.ok _
      simp only [Lists.extend, parseList_behind behind hw.ended hval hret, putNuls_behind behind (parseList_nuls hval)]
    · rw [putNuls_length]
      rcases List.mem_append.1 hp with hp | hp
      · exact hw.contexts p hp
      · exact parseList_starts hval hret p hp
    · rw [putNuls_length]
      exact hw.aliases p hp
  · rename_i halias hcontext
    cases h
    rw [if_neg halias, if_neg hcontext]
    exact ⟨rfl, hw, rfl⟩

theorem appFields_behind {ptr : List Nat} {route route' : Str} (hw : st.Within) (hptr : ∀ p ∈ ptr, p < st.mem.length)
    (h : appFields httpd ptr route st = .ok (route', st')) :
    appFields httpd ptr route (st.extend behind) = .ok (route', st'.extend behind) ∧ st'.Within := by
  induction ptr using List.twoStepInduction generalizing route st with
  | nil =>
    cases h
    exact ⟨rfl, hw⟩
  | singleton key => cases h
  | cons_cons key val rest ih _ =>
    obtain ⟨hkey, hval, hrest⟩ : key < st.mem.length ∧ val < st.mem.length ∧ ∀ p ∈ rest, p < st.mem.length := by
      simpa only [List.forall_mem_cons] using hptr
    have hk : strAt (st.extend behind).mem key = strAt st.mem key := hw.ended.strAt_append behind hkey
    have hv : strAt (st.extend behind).mem val = strAt st.mem val := hw.ended.strAt_append behind hval
    rw [appFields] at h ⊢
    simp only [hk, hv] at h ⊢
    split at h
    · cases h
    rename_i hbig
    rw [if_neg hbig]
    split at h
    swap
    · cases h
    rename_i st₁ hst
    obtain ⟨hst', hw', hlen⟩ := processContextAlias_behind behind hw hkey hval hst
    rw [hst']
    refine ih hw' (fun p hp => ?_) h
    rw [hlen]
    exact hrest p hp

theorem parseApp_behind {argv : Argv} {args : AppArgs} (hend : Ended argv.mem) (hptr : ∀ p ∈ argv.ptr, p < argv.mem.length)
    (h : parseApp httpd glob argv = .ok args) :
    parseApp httpd glob { mem := argv.mem ++ behind, ptr := argv.ptr } = .ok args := by
  unfold parseApp at h ⊢
  split at h
  · cases h
  rename_i route st hst
  have hw : Lists.Within { mem := argv.mem, contexts := [], aliases := [] } := ⟨hend, nofun, nofun⟩
  obtain ⟨hfields, hw'⟩ := appFields_behind behind hw hptr hst
  have hread {ps : List Nat} (hps : ∀ p ∈ ps, p < st.mem.length) :
      ps.map (strAt (st.extend behind).mem) = ps.map (strAt st.mem) :=
    List.map_congr_left fun p hp => hw'.ended.strAt_append behind (hps p hp)
  rw [show appFields httpd argv.ptr [] { mem := argv.mem ++ behind, contexts := [], aliases := [] } = _ from hfields]
  simp only
  rw [show (st.extend behind).contexts = st.contexts from rfl, show (st.extend behind).aliases = st.aliases from rfl,
    hread hw'.contexts, hread hw'.aliases]
  exact h

end Messages

/-! ## A list of aliases and a list of contexts -/

section AliasContext

variable {httpd : Httpd} {lenLimit : Nat} {a c : Str}

theorem parseListLoop_word {t : Str} (ht : ∀ b ∈ t, b ≠ 0 ∧ b ≠ ch ',') (rest : List Byte) (current start len : Nat) :
    (parseListLoop lenLimit (t ++ 0 :: rest) current start len).nuls = [] := by
  induction t generalizing current len with
  | nil =>
    rw [List.nil_append, parseListLoop_nul]
    exact stop_nuls _ _
  | cons b t ih =>
    obtain ⟨hb, ht⟩ := List.forall_mem_cons.1 ht
    rw [List.cons_append, parseListLoop_char _ _ _ _ hb.1 hb.2]
    split
    · rfl
    · exact ih ht _ _

theorem parseListLoop_nuls_word (hlim : lenLimit ≠ 0) {s t : Str} (hs : 0 ∉ s) (ht : ∀ b ∈ t, b ≠ 0 ∧ b ≠ ch ',')
    (rest : List Byte) (current start len : Nat) :
    ∀ p ∈ (parseListLoop lenLimit (s ++ 0 :: (t ++ 0 :: rest)) current start len).nuls, p < current + s.length := by
  induction s using List.twoStepInduction generalizing current start len with
  | nil =>
    intro p hp
    rw [List.nil_append, parseListLoop_nul, stop_nuls] at hp
    cases hp
  | singleton b =>
    intro p hp
    by_cases hcomma : b = ch ','
    · subst hcomma
      rw [List.singleton_append, parseListLoop_comma _ _ _ _ hlim, Split.push, parseListLoop_word ht,
        List.mem_singleton] at hp
      rw [hp, List.length_singleton]
      omega
    · have hb : b ≠ 0 := fun h => hs (List.mem_singleton.2 h.symm)
      rw [List.singleton_append, parseListLoop_char _ _ _ _ hb hcomma] at hp
      split at hp
      · cases hp
      · rw [parseListLoop_nul, stop_nuls] at hp
        cases hp
  | cons_cons b b' rest ih ih' =>
    intro p hp
    have hb : b ≠ 0 := fun h => hs (List.mem_cons.2 (Or.inl h.symm))
    by_cases hcomma : b = ch ','
    · subst hcomma
      rw [List.cons_append, List.cons_append, parseListLoop_comma _ _ _ _ hlim, Split.push, List.mem_cons] at hp
      rw [List.length_cons, List.length_cons]
      rcases hp with rfl | hp
      · omega
      · have := ih (fun h => hs (List.mem_cons_of_mem _ (List.mem_cons_of_mem _ h))) _ _ _ p hp
        omega
    · rw [List.cons_append, parseListLoop_char _ _ _ _ hb hcomma] at hp
      split at hp
      · cases hp
      · have := ih' b' (fun h => hs (List.mem_cons_of_mem _ h)) _ _ _ p hp
        rw [List.length_cons]
        omega

theorem lower_nul (ha : 0 ∉ a) : 0 ∉ lower a := by
  intro h
  obtain ⟨b, hb, hlow⟩ := List.mem_map.1 h
  unfold toLower at hlow
  split at hlow
  · rename_i hup
    simp only [isUpper, Bool.and_eq_true, decide_eq_true_eq, UInt8.le_iff_toNat_le] at hup
    have hsum := congrArg UInt8.toNat hlow
    rw [UInt8.toNat_add] at hsum
    have h32 : (32 : UInt8).toNat = 32 := rfl
    have h65 : (65 : UInt8).toNat = 65 := rfl
    have h90 : (90 : UInt8).toNat = 90 := rfl
    have h0 : (0 : UInt8).toNat = 0 := rfl
    omega
  · exact ha (hlow ▸ hb)

theorem processContextAlias_alias {pre tail : Mem} {key : Nat} {st : Lists} (ha : 0 ∉ a)
    (hmem : st.mem = pre ++ (a ++ 0 :: tail)) (hkey : strAt st.mem key = ascii "Alias") :
    processContextAlias key pre.length st =
      let s := parseListToArrayWithChecks (lower a ++ 0 :: tail) 0 HOSTALIASZ
      if s.ret = 0 then
        .ok { mem := pre ++ putNuls (lower a ++ 0 :: tail) s.nuls, contexts := st.contexts,
              aliases := st.aliases ++ s.starts.map (pre.length + ·) }
      else if s.ret = 1 then .error .salibig
      else .error .emptyAlias := by
  have hval : strAt st.mem pre.length = a := by
    rw [hmem]
    exact strAt_token ha pre tail
  have hwrite : write st.mem pre.length (lower a) = pre ++ (lower a ++ 0 :: tail) := by
    have hat := write_append pre (a ++ 0 :: tail) 0 (lower a)
    rw [Nat.add_zero] at hat
    rw [hmem, hat]
    unfold write
    rw [List.take_zero, List.nil_append, Nat.zero_add, lower, List.length_map, List.drop_left]
  have hlist := parseList_shift pre (lower a ++ 0 :: tail) 0 HOSTALIASZ
  rw [Nat.add_zero] at hlist
  unfold processContextAlias
  simp only [hkey, hval, hwrite, hlist]
  rw [if_pos (by decide)]
  simp only [Split.shift, putNuls_append]
  rfl

theorem processContextAlias_context {pre tail : Mem} {key : Nat} {st : Lists} (hmem : st.mem = pre ++ tail)
    (hkey : strAt st.mem key = ascii "Context") :
    processContextAlias key pre.length st =
      let s := parseListToArrayWithChecks tail 0 CONTEXTSZ
      if s.ret = 0 then
        .ok { mem := pre ++ putNuls tail s.nuls, contexts := st.contexts ++ s.starts.map (pre.length + ·),
              aliases := st.aliases }
      else if s.ret = 1 then .error .sconbig
      else .error .emptyContext := by
  have hlist := parseList_shift pre tail 0 CONTEXTSZ
  rw [Nat.add_zero] at hlist
  unfold processContextAlias
  simp only [hkey]
  rw [if_neg (by decide), if_pos (by decide)]
  simp only [hmem, hlist, Split.shift, putNuls_append]

def listTokens (a c : Str) : List Str := [ascii "Alias", a, ascii "Context", c]

/-- Both lists are accepted, with `behind` in memory behind the contexts. A list that ends
in a comma goes on behind its NUL. -/
def ListsOk (a c : Str) (behind : Mem) : Prop :=
  (parseListToArrayWithChecks (lower a ++ 0 :: (ascii "Context" ++ 0 :: (c ++ 0 :: behind))) 0 HOSTALIASZ).ret = 0 ∧
    (parseListToArrayWithChecks (c ++ 0 :: behind) 0 CONTEXTSZ).ret = 0

theorem parseList_ret_starts {m : Mem} {val lenLimit : Nat}
    (hret : (parseListToArrayWithChecks m val lenLimit).ret = 0) :
    (parseListToArrayWithChecks m val lenLimit).starts ≠ [] :=
  (parseListLoop_starts _ _ _ _ hret).1

theorem appFields_list (httpd : Httpd) {key val : Nat} {rest : List Nat} {route : Str} {st : Lists}
    (hkey : caseEq (strAt st.mem key) (ascii "JVMRoute") = false) :
    appFields httpd (key :: val :: rest) route st =
      match processContextAlias key val st with
      | .ok st => appFields httpd rest route st
      | .error e => .error (.error e) := by
  rw [appFields]
  cases processContextAlias key val st with
  | ok st => simp only [hkey, Bool.false_eq_true, false_and, if_false]
  | error e => simp only [hkey, Bool.false_eq_true, false_and, if_false]

theorem appFields_context (httpd : Httpd) (route : Str) {pre tail : Mem} {key : Nat} {st : Lists}
    (hmem : st.mem = pre ++ tail) (hkey : strAt st.mem key = ascii "Context") :
    ((parseListToArrayWithChecks tail 0 CONTEXTSZ).ret = 0 ∧
        ∃ st', appFields httpd [key, pre.length] route st = .ok (route, st') ∧ st'.contexts ≠ [] ∧
          st'.aliases = st.aliases) ∨
      ((parseListToArrayWithChecks tail 0 CONTEXTSZ).ret ≠ 0 ∧
        ∃ e, appFields httpd [key, pre.length] route st = .error e) := by
  have hlist := processContextAlias_context hmem hkey
  rw [appFields_list httpd (by rw [hkey]; decide), hlist]
  simp only
  by_cases hret : (parseListToArrayWithChecks tail 0 CONTEXTSZ).ret = 0
  · rw [if_pos hret]
    refine Or.inl ⟨hret, _, rfl, ?_, rfl⟩
    exact List.append_ne_nil_of_right_ne_nil _ (mt List.map_eq_nil_iff.1 (parseList_ret_starts hret))
  · rw [if_neg hret]
    refine Or.inr ⟨hret, ?_⟩
    split
    · rename_i h
      split at h <;> cases h
    · exact ⟨_, rfl⟩

theorem appFields_lists (httpd : Httpd) (ha : 0 ∉ a) (route : Str) (behind : Mem) :
    (ListsOk a c behind ∧ ∃ st, appFields httpd (tokenArgv (listTokens a c) behind).ptr route
        { mem := (tokenArgv (listTokens a c) behind).mem, contexts := [], aliases := [] } = .ok (route, st) ∧
          st.contexts ≠ [] ∧ st.aliases ≠ []) ∨
      (¬ ListsOk a c behind ∧ ∃ e, appFields httpd (tokenArgv (listTokens a c) behind).ptr route
        { mem := (tokenArgv (listTokens a c) behind).mem, contexts := [], aliases := [] } = .error e) := by
  have hmem : (tokenArgv (listTokens a c) behind).mem =
      tokenMem [ascii "Alias"] ++ (a ++ 0 :: (ascii "Context" ++ 0 :: (c ++ 0 :: behind))) := by
    simp [tokenArgv, listTokens, tokenMem]
  have hptr : (tokenArgv (listTokens a c) behind).ptr =
      [0, (tokenMem [ascii "Alias"]).length, (tokenMem [ascii "Alias"]).length + a.length + 1,
        (tokenMem [ascii "Alias"]).length + a.length + 1 + 8] := rfl
  have hkey : strAt (tokenArgv (listTokens a c) behind).mem 0 = ascii "Alias" := by
    rw [hmem, tokenMem_cons, List.append_assoc]
    exact strAt_zero (by decide) _
  rw [hptr, appFields_list httpd (by rw [hkey]; decide), processContextAlias_alias ha hmem hkey]
  unfold ListsOk
  -- The NULs of the aliases leave the key behind them alone, and the contexts.
  have hnuls := @parseListLoop_nuls_word HOSTALIASZ (by decide) (lower a) (ascii "Context") (lower_nul ha)
    (by decide +kernel)
    (c ++ 0 :: behind) 0 0 0
  have hlower : (lower a).length = a.length := List.length_map _
  rw [Nat.zero_add] at hnuls
  generalize hs : parseListToArrayWithChecks (lower a ++ 0 :: (ascii "Context" ++ 0 :: (c ++ 0 :: behind))) 0 HOSTALIASZ = s
  have hput : putNuls (lower a ++ 0 :: (ascii "Context" ++ 0 :: (c ++ 0 :: behind))) s.nuls =
      putNuls (lower a) s.nuls ++ 0 :: (ascii "Context" ++ 0 :: (c ++ 0 :: behind)) := by
    rw [← hs]
    exact putNuls_behind _ hnuls
  simp only [hput]
  by_cases hret : s.ret = 0
  swap
  · rw [if_neg hret]
    refine Or.inr ⟨fun h => hret h.1, ?_⟩
    split
    · rename_i h
      split at h <;> cases h
    · exact ⟨_, rfl⟩
  rw [if_pos hret]
  simp only [List.nil_append]
  have hstarts : s.starts ≠ [] := by
    rw [← hs] at hret ⊢
    exact parseList_ret_starts hret
  have hali : (s.starts.map ((tokenMem [ascii "Alias"]).length + ·)) ≠ [] := mt List.map_eq_nil_iff.1 hstarts
  have hbefore : (tokenMem [ascii "Alias"] ++ (putNuls (lower a) s.nuls ++ [0])).length =
      (tokenMem [ascii "Alias"]).length + a.length + 1 := by
    rw [List.length_append, List.length_append, putNuls_length, hlower, List.length_singleton, Nat.add_assoc]
  generalize hst : Lists.mk _ _ _ = st
  have hmem' : st.mem = tokenMem [ascii "Alias"] ++ (putNuls (lower a) s.nuls ++ [0]) ++
      (ascii "Context" ++ 0 :: (c ++ 0 :: behind)) := by
    rw [← hst]
    simp only [List.append_assoc, List.singleton_append]
  have hcontext : st.mem = tokenMem [ascii "Alias"] ++ (putNuls (lower a) s.nuls ++ [0]) ++ (ascii "Context" ++ [0]) ++
      (c ++ 0 :: behind) := by
    rw [hmem']
    simp only [List.append_assoc, List.cons_append, List.nil_append]
  have hkey' : strAt st.mem ((tokenMem [ascii "Alias"]).length + a.length + 1) = ascii "Context" := by
    rw [← hbefore, hmem']
    exact strAt_token (by decide) _ _
  have hfields := appFields_context httpd route hcontext hkey'
  rw [List.length_append, hbefore] at hfields
  rcases hfields with ⟨hret', st', hst', hne, hali'⟩ | ⟨hret', e, he⟩
  · refine Or.inl ⟨⟨hret, hret'⟩, st', hst', hne, ?_⟩
    rw [hali', ← hst]
    exact hali
  · exact Or.inr ⟨fun h => hret' h.2, e, he⟩

theorem parseApp_lists (httpd : Httpd) {j : Str} (hj : 0 ∉ j) (ha : 0 ∉ a) (glob : Bool) (behind : Mem) :
    ((j ≠ [] ∧ j.length < httpd.routeSize ∧ ListsOk a c behind) ∧
        ∃ args, parseApp httpd glob (tokenArgv (routeTokens j ++ listTokens a c) behind) = .ok args ∧ args.jvmRoute = j) ∨
      (¬ (j ≠ [] ∧ j.length < httpd.routeSize ∧ ListsOk a c behind) ∧
        ∃ e, parseApp httpd glob (tokenArgv (routeTokens j ++ listTokens a c) behind) = .error e) := by
  have hfields := appFields_route httpd hj (listTokens a c) behind
  have hlists := @appFields_lists a c httpd ha j behind
  unfold parseApp
  rw [hfields]
  by_cases hbig : j.length ≥ httpd.routeSize
  · rw [if_pos hbig]
    exact Or.inr ⟨fun h => absurd h.2.1 (Nat.not_lt.2 hbig), _, rfl⟩
  rw [if_neg hbig]
  rcases hlists with ⟨hok, st, hst, hc, hali⟩ | ⟨hno, e, he⟩
  · rw [hst]
    simp only [Except.map, Lists.shift, List.map_eq_nil_iff, hc, hali, and_false, if_false]
    by_cases hnil : j = []
    · rw [if_pos hnil]
      exact Or.inr ⟨fun h => h.1 hnil, _, rfl⟩
    · rw [if_neg hnil]
      exact Or.inl ⟨⟨hnil, Nat.not_le.1 hbig, hok⟩, _, rfl, rfl⟩
  · rw [he]
    exact Or.inr ⟨fun h => hno h.2.2, e, rfl⟩

end AliasContext

end ModCluster
