import ModCluster.Alphabet

/-!
# What a command on aliases and contexts is given, and what it says

The names that `process_app_cmd` takes from a message fit the records they are copied to.
`print_app_cmd_response` lists the contexts that are flagged, alias by alias.
-/

open CString Slotmem Slotmem.Table

namespace ModCluster

/-! ## The names of a command fit their records -/

section Names

variable {m m' : Mem} {W : Nat → Prop} {lenLimit : Nat}

theorem Rewritten.strAt_length_le (h : Rewritten W m m') (s : Nat) : (strAt m' s).length ≤ (strAt m s).length := by
  have hle := ModCluster.strAt_length_le (Nat.le_add_right s _) (h.nul (byteAt_strAt_end m s))
  omega

theorem parseListLoop_ends (hlim : 0 < lenLimit) (rest : List Byte) (current start len : Nat)
    (hrest : rest = m.drop current) (hstart : start ≤ current) (hcount : current - start ≤ len + 1)
    (hlen : len < lenLimit) :
    ∀ s ∈ (parseListLoop lenLimit rest current start len).starts, ∃ e, s ≤ e ∧ e - s ≤ lenLimit ∧
      (e ∈ (parseListLoop lenLimit rest current start len).nuls ∨ byteAt m e = 0) := by
  have hne : lenLimit ≠ 0 := by omega
  induction rest, current, start, len using parseListLoop.induct lenLimit with
  | case1 current start len =>
    have hend := byteAt_drop m current 0
    rw [← hrest] at hend
    rw [parseListLoop]
    intro s hs
    rw [stop_starts hs]
    exact ⟨current, hstart, by omega, Or.inr hend.symm⟩
  | case2 rest current start len =>
    obtain ⟨hb, -⟩ := drop_eq_cons hrest
    rw [parseListLoop_nul]
    intro s hs
    rw [stop_starts hs]
    exact ⟨current, hstart, by omega, Or.inr hb⟩
  | case3 rest current start len hlim => exact absurd hlim hne
  | case4 current start len hlim =>
    rw [parseListLoop_comma_nil _ _ _ hlim, Split.push]
    intro s hs
    have hnone : (parseListLoop.stop lenLimit (current + 1) 0).starts = [] := by
      unfold parseListLoop.stop
      rw [if_neg (by omega), if_pos rfl]
    rw [hnone, List.mem_singleton] at hs
    rw [hs]
    exact ⟨current, hstart, by omega, Or.inl (List.mem_cons_self ..)⟩
  | case5 current start len hlim b rest _ ih =>
    obtain ⟨-, hdrop⟩ := drop_eq_cons hrest
    obtain ⟨-, hdrop⟩ := drop_eq_cons hdrop
    rw [parseListLoop_comma _ _ _ _ hlim, Split.push]
    intro s hs
    rcases List.mem_cons.mp hs with rfl | hs
    · exact ⟨current, hstart, by omega, Or.inl (List.mem_cons_self ..)⟩
    · obtain ⟨e, hse, hle, he⟩ := ih hdrop (by omega) (by omega) (Nat.pos_of_ne_zero hlim) s hs
      exact ⟨e, hse, hle, he.imp_left (List.mem_cons_of_mem _)⟩
  | case6 b rest current start len hb hc hbig =>
    rw [parseListLoop_char _ _ _ _ hb hc, if_pos hbig]
    exact List.forall_mem_nil _
  | case7 b rest current start len hb hc hbig ih =>
    obtain ⟨-, hdrop⟩ := drop_eq_cons hrest
    rw [parseListLoop_char _ _ _ _ hb hc, if_neg hbig]
    exact ih hdrop (by omega) (by omega) (by omega)

theorem parseList_fits (hlim : 0 < lenLimit) (val : Nat) :
    ∀ s ∈ (parseListToArrayWithChecks m val lenLimit).starts,
      (strAt (putNuls m (parseListToArrayWithChecks m val lenLimit).nuls) s).length ≤ lenLimit := by
  intro s hs
  obtain ⟨e, hse, hle, he⟩ := parseListLoop_ends hlim (m.drop val) val val 0 rfl (Nat.le_refl _) (by omega) hlim s hs
  have hend : byteAt (putNuls m (parseListToArrayWithChecks m val lenLimit).nuls) e = 0 := by
    rw [byteAt_putNuls]
    split
    · rfl
    · exact he.resolve_left ‹_›
  have hlen := strAt_length_le hse hend
  omega

/-- The lists read so far fit. -/
structure Lists.Fit (st : Lists) : Prop where
  aliases : ∀ s ∈ st.aliases, (strAt st.mem s).length ≤ HOSTALIASZ
  contexts : ∀ s ∈ st.contexts, (strAt st.mem s).length ≤ CONTEXTSZ

theorem processContextAlias_fit {key val : Nat} {st ls : Lists} (hst : st.Fit)
    (h : processContextAlias key val st = .ok ls) : ls.Fit := by
  have hrw : Rewritten (fun _ => True) st.mem ls.mem := by
    rw [(processContextAlias_ok h).1]
    exact contextAliasMem_rewritten key val st.mem
  have hold (s : Nat) {n : Nat} (hs : (strAt st.mem s).length ≤ n) : (strAt ls.mem s).length ≤ n :=
    Nat.le_trans (hrw.strAt_length_le s) hs
  unfold processContextAlias at h
  simp only at h
  split at h
  · split at h
    · cases h
      refine ⟨fun s hs => ?_, fun s hs => hold s (hst.contexts s hs)⟩
      rcases List.mem_append.1 hs with hs | hs
      · exact hold s (hst.aliases s hs)
      · exact parseList_fits (by decide) val s hs
    · split at h <;> cases h
  split at h
  · split at h
    · cases h
      refine ⟨fun s hs => hold s (hst.aliases s hs), fun s hs => ?_⟩
      rcases List.mem_append.1 hs with hs | hs
      · exact hold s (hst.contexts s hs)
      · exact parseList_fits (by decide) val s hs
    · split at h <;> cases h
  · cases h
    exact hst

variable {httpd : Httpd}

theorem appFields_fit (ptr : List Nat) (route : Str) (st : Lists) {r : Str × Lists} (hst : st.Fit)
    (h : appFields httpd ptr route st = .ok r) :
    r.2.Fit ∧ ((route = [] ∨ route.length < httpd.routeSize) → r.1 = [] ∨ r.1.length < httpd.routeSize) := by
  induction ptr, route, st using appFields.induct httpd with
  | case1 route st =>
    cases h
    exact ⟨hst, id⟩
  | case2 key route st => cases h
  | case3 key val rest route st isRoute v hbig =>
    rw [appFields, if_pos hbig] at h
    cases h
  | case4 key val rest route st isRoute v hbig ls hls ih =>
    rw [appFields, if_neg hbig, hls] at h
    obtain ⟨hfit, hroute⟩ := ih (processContextAlias_fit hst hls) h
    refine ⟨hfit, fun hlt => hroute ?_⟩
    split
    · rename_i hkey
      exact Or.inr (Nat.lt_of_not_le fun hle => hbig ⟨hkey, hle⟩)
    · exact hlt
  | case5 key val rest route st isRoute v hbig e he =>
    rw [appFields, if_neg hbig, he] at h
    cases h

/-- What is read off the message of a command that is not wildcard: no list is empty, and
everything fits where it is copied to. -/
structure AppArgs.Fit (httpd : Httpd) (args : AppArgs) : Prop where
  route : args.jvmRoute.length < httpd.routeSize
  aliases : ∀ a ∈ args.aliases, a.length ≤ HOSTALIASZ
  contexts : ∀ c ∈ args.contexts, c.length ≤ CONTEXTSZ

theorem parseApp_fit {glob : Bool} {argv : Argv} {args : AppArgs} (h : parseApp httpd glob argv = .ok args) :
    args.Fit httpd := by
  unfold parseApp at h
  split at h
  · cases h
  rename_i route st hst
  obtain ⟨hfit, hroute⟩ := appFields_fit (r := (route, st)) _ _ _
    ⟨List.forall_mem_nil _, List.forall_mem_nil _⟩ hst
  split at h
  · cases h
  rename_i hne
  split at h
  · cases h
  split at h
  · cases h
  split at h
  · cases h
  cases h
  refine ⟨(hroute (Or.inl rfl)).resolve_left hne, fun a ha => ?_, fun c hc => ?_⟩
  · obtain ⟨s, hs, rfl⟩ := List.mem_map.1 ha
    exact hfit.aliases s hs
  · obtain ⟨s, hs, rfl⟩ := List.mem_map.1 hc
    exact hfit.contexts s hs

end Names

/-! ## The response -/

section Response

/-- The line for an alias, if a context is listed for it. -/
def listingLine (host : Str) (contexts : List Str) : Str :=
  if contexts = [] then []
  else [10] ++ ascii "Alias=" ++ host ++ ascii " Contexts=" ++ (ascii ",").intercalate contexts ++ [10]

def responseType : ContextStatus → Str
  | .enabled => ascii "Type=ENABLE-APP-RSP"
  | .stopped => ascii "Type=STOP-APP-RSP"
  | .disabled => ascii "Type=DISABLE-APP-RSP"
  | _ => ascii "Type=REMOVE-APP-RSP"

/-- The response that lists these contexts for these aliases. -/
def appListing (cmd : ContextStatus) (jvmRoute : Str) (rows : List (Str × List Str)) : Str :=
  responseType cmd ++ [10] ++ ascii "JvmRoute=" ++ jvmRoute ++ rows.flatMap (fun row => listingLine row.1 row.2) ++ [10]

theorem intercalate_cons_eq (sep x : Str) (xs : List Str) :
    sep.intercalate (x :: xs) = x ++ xs.flatMap (sep ++ ·) := by
  induction xs generalizing x with
  | nil => simp [List.intercalate]
  | cons y ys ih =>
    rw [List.flatMap_cons, List.append_assoc, ← ih y]
    simp [List.intercalate]

theorem responseContexts_rest (f : Str → Bool) (contexts : List Str) :
    responseContexts (ascii ",") (contexts.zip (contexts.map f)) =
      (contexts.filter f).flatMap (ascii "," ++ ·) ++ [10] := by
  induction contexts with
  | nil => rfl
  | cons c contexts ih =>
    rw [List.map_cons, List.zip_cons_cons, responseContexts, List.filter_cons, ih]
    split
    · rw [List.flatMap_cons]
      simp only [List.append_assoc]
    · rfl

theorem responseContexts_listing (f : Str → Bool) (host : Str) (contexts : List Str) :
    responseContexts ([10] ++ ascii "Alias=" ++ host ++ ascii " Contexts=") (contexts.zip (contexts.map f)) =
      listingLine host (contexts.filter f) := by
  induction contexts with
  | nil => rfl
  | cons c contexts ih =>
    rw [List.map_cons, List.zip_cons_cons, responseContexts, List.filter_cons]
    split
    · -- The first context that is listed: from here on each has a comma in front.
      rw [responseContexts_rest, listingLine, if_neg (List.cons_ne_nil _ _), intercalate_cons_eq]
      simp only [List.append_assoc]
    · exact ih

theorem printAppCmdResponse_eq {httpd : Httpd} {cmd : ContextStatus} {jvmRoute : Str}
    (hroute : jvmRoute.length < httpd.routeSize) (f : Str → Str → Bool) {aliases contexts : List Str}
    (haliases : ∀ a ∈ aliases, a.length ≤ HOSTALIASZ) :
    printAppCmdResponse httpd cmd jvmRoute aliases contexts (aliases.map fun a => contexts.map (f a)) =
      appListing cmd jvmRoute (aliases.map fun a => (a, contexts.filter (f a))) := by
  have hrows : (aliases.zip (aliases.map fun a => contexts.map (f a))).flatMap (fun a =>
      responseContexts ([10] ++ ascii "Alias=" ++ a.1.take HOSTALIASZ ++ ascii " Contexts=") (contexts.zip a.2)) =
        (aliases.map fun a => (a, contexts.filter (f a))).flatMap (fun row => listingLine row.1 row.2) := by
    induction aliases with
    | nil => rfl
    | cons a aliases ih =>
      obtain ⟨ha, hrest⟩ := List.forall_mem_cons.1 haliases
      rw [List.map_cons, List.zip_cons_cons, List.flatMap_cons, List.map_cons, List.flatMap_cons, ih hrest]
      simp only
      rw [List.take_of_length_le ha, responseContexts_listing]
  unfold printAppCmdResponse appListing
  rw [hrows, List.take_of_length_le (Nat.le_of_lt hroute)]
  cases cmd <;> rfl

end Response

end ModCluster
