import Mathlib.Data.List.TakeWhile
import ModCluster.ManagerPage

/-!
# Messages of plain fields

The memory of a message is its tokens, each with its NUL. A body and a query of plain
keys and values both come to that, the body when no token holds a forbidden character.
-/

open CString Slotmem

namespace ModCluster

/-! ## Reading and writing at an offset -/

theorem strAt_append (a : Mem) (m : Mem) (p : Nat) : strAt (a ++ m) (a.length + p) = strAt m p := by
  unfold strAt
  rw [List.drop_length_add_append]

theorem bne_of_notMem {c : Byte} {t : Str} (ht : c ∉ t) : ∀ b ∈ t, (b != c) = true :=
  fun _ hb => bne_iff_ne.2 (ne_of_mem_of_not_mem hb ht)

theorem takeWhile_eq_self {c : Byte} {t : Str} (ht : c ∉ t) : t.takeWhile (· != c) = t :=
  List.takeWhile_eq_self_iff.2 (bne_of_notMem ht)

theorem takeWhile_append {c : Byte} {t : Str} (ht : c ∉ t) (rest : Str) :
    (t ++ c :: rest).takeWhile (· != c) = t := by
  rw [List.takeWhile_append_of_pos (bne_of_notMem ht), List.takeWhile_cons_of_neg (by simp), List.append_nil]

theorem strAt_zero {t : Str} (ht : 0 ∉ t) (m : Mem) : strAt (t ++ 0 :: m) 0 = t :=
  takeWhile_append ht m

theorem strAt_token {t : Str} (ht : 0 ∉ t) (a m : Mem) : strAt (a ++ (t ++ 0 :: m)) a.length = t := by
  have h := strAt_append a (t ++ 0 :: m) 0
  rw [Nat.add_zero] at h
  rw [h, strAt_zero ht]

theorem write_append (a m : Mem) (p : Nat) (s : List Byte) : write (a ++ m) (a.length + p) s = a ++ write m p s := by
  unfold write
  rw [List.take_length_add_append, Nat.add_assoc, List.drop_length_add_append, List.append_assoc, List.append_assoc,
    List.append_assoc]

theorem write_same (s m : Mem) : write (s ++ m) 0 s = s ++ m := by
  unfold write
  rw [List.take_zero, List.nil_append, Nat.zero_add, List.drop_left]

theorem putNuls_append (a m : Mem) (nuls : List Nat) :
    putNuls (a ++ m) (nuls.map (a.length + ·)) = a ++ putNuls m nuls := by
  unfold putNuls
  induction nuls generalizing m with
  | nil => rfl
  | cons p rest ih =>
    rw [List.map_cons, List.foldl_cons, List.foldl_cons, List.set_append_right _ _ (by omega), Nat.add_sub_cancel_left]
    exact ih (m.set p 0)

/-! ## Tokens -/

def tokenMem (tokens : List Str) : Mem := tokens.flatMap (· ++ [0])

def tokenOffsets (pos : Nat) : List Str → List Nat
  | [] => []
  | t :: rest => pos :: tokenOffsets (pos + t.length + 1) rest

theorem tokenMem_cons (t : Str) (rest : List Str) : tokenMem (t :: rest) = t ++ 0 :: tokenMem rest := by
  simp [tokenMem]

theorem tokenOffsets_shift (n pos : Nat) (tokens : List Str) :
    tokenOffsets (n + pos) tokens = (tokenOffsets pos tokens).map (n + ·) := by
  induction tokens generalizing pos with
  | nil => rfl
  | cons t rest ih =>
    have hpos : n + pos + t.length + 1 = n + (pos + t.length + 1) := by omega
    rw [tokenOffsets, tokenOffsets, List.map_cons, hpos, ih]

theorem tokenOffsets_append (pos : Nat) (tokens more : List Str) :
    tokenOffsets pos (tokens ++ more) = tokenOffsets pos tokens ++ tokenOffsets (pos + (tokenMem tokens).length) more := by
  induction tokens generalizing pos with
  | nil => rfl
  | cons t rest ih =>
    rw [List.cons_append, tokenOffsets, tokenOffsets, ih, tokenMem_cons, List.cons_append, List.length_append,
      List.length_cons]
    congr 3
    omega

/-- Keys and values, one behind the other. -/
def pairTokens (pairs : List (Str × Str)) : List Str := pairs.flatMap fun p => [p.1, p.2]

/-- The text of a query or a body. -/
def joinPairs : List (Str × Str) → Str
  | [] => []
  | [p] => p.1 ++ ch '=' :: p.2
  | p :: q :: rest => p.1 ++ ch '=' :: (p.2 ++ ch '&' :: joinPairs (q :: rest))

def PlainPairs (pairs : List (Str × Str)) : Prop := ∀ p ∈ pairs, Plain p.1 ∧ Plain p.2

theorem Plain.nul {s : Str} (h : Plain s) : 0 ∉ s := fun hmem => (h 0 hmem).1 rfl

theorem Plain.percent {s : Str} (h : Plain s) : ch '%' ∉ s := fun hmem => (h _ hmem).2.1 rfl

theorem Plain.not_separator {s : Str} (h : Plain s) : ∀ b ∈ s, isSeparator b = false := by
  intro b hb
  unfold isSeparator
  rw [Bool.or_eq_false_iff, beq_eq_false_iff_ne, beq_eq_false_iff_ne]
  exact ⟨(h b hb).2.2.1, (h b hb).2.2.2⟩

theorem PlainPairs.tail {p : Str × Str} {rest : List (Str × Str)} (h : PlainPairs (p :: rest)) : PlainPairs rest :=
  fun q hq => h q (List.mem_cons_of_mem _ hq)

theorem PlainPairs.tokens {pairs : List (Str × Str)} (h : PlainPairs pairs) : ∀ t ∈ pairTokens pairs, Plain t := by
  intro t ht
  obtain ⟨p, hp, ht⟩ := List.mem_flatMap.1 ht
  rcases List.mem_cons.1 ht with rfl | ht
  · exact (h p hp).1
  · rw [List.mem_singleton.1 ht]
    exact (h p hp).2

theorem nul_notMem_joinPairs {pairs : List (Str × Str)} (h : PlainPairs pairs) : 0 ∉ joinPairs pairs := by
  fun_induction joinPairs pairs with
  | case1 => exact List.not_mem_nil
  | case2 p =>
    obtain ⟨hk, hv⟩ := h p (List.mem_cons_self ..)
    simp only [List.mem_append, List.mem_cons, not_or]
    exact ⟨hk.nul, by decide, hv.nul⟩
  | case3 p q rest ih =>
    obtain ⟨hk, hv⟩ := h p (List.mem_cons_self ..)
    simp only [List.mem_append, List.mem_cons, not_or]
    exact ⟨hk.nul, by decide, hv.nul, by decide, ih h.tail⟩

/-! ## The body of a message -/

theorem tokenStarts_last {t : Str} (ht : ∀ b ∈ t, isSeparator b = false) (pos : Nat) : tokenStarts pos t = [] := by
  induction t generalizing pos with
  | nil => rfl
  | cons b t ih =>
    rw [tokenStarts, ht b (List.mem_cons_self ..), if_neg Bool.false_ne_true]
    exact ih (fun c hc => ht c (List.mem_cons_of_mem _ hc)) (pos + 1)

theorem tokenStarts_token {t : Str} (ht : ∀ b ∈ t, isSeparator b = false) {sep : Byte} (hsep : isSeparator sep = true)
    (pos : Nat) (rest : Str) :
    tokenStarts pos (t ++ sep :: rest) = (pos + t.length + 1) :: tokenStarts (pos + t.length + 1) rest := by
  induction t generalizing pos with
  | nil =>
    rw [List.nil_append, tokenStarts, hsep, if_pos rfl]
    rfl
  | cons b t ih =>
    have hpos : pos + (b :: t).length + 1 = pos + 1 + t.length + 1 := by
      rw [List.length_cons]
      omega
    rw [List.cons_append, tokenStarts, ht b (List.mem_cons_self ..), if_neg Bool.false_ne_true, hpos]
    exact ih (fun c hc => ht c (List.mem_cons_of_mem _ hc)) (pos + 1)

theorem tokenStarts_joinPairs {pairs : List (Str × Str)} (h : PlainPairs pairs) (hne : pairs ≠ []) (pos : Nat) :
    pos :: tokenStarts pos (joinPairs pairs) = tokenOffsets pos (pairTokens pairs) := by
  fun_induction joinPairs pairs generalizing pos with
  | case1 => exact absurd rfl hne
  | case2 p =>
    obtain ⟨hk, hv⟩ := h p (List.mem_cons_self ..)
    rw [tokenStarts_token hk.not_separator (by decide), tokenStarts_last hv.not_separator]
    rfl
  | case3 p q rest ih =>
    obtain ⟨hk, hv⟩ := h p (List.mem_cons_self ..)
    rw [tokenStarts_token hk.not_separator (by decide), tokenStarts_token hv.not_separator (by decide),
      ih h.tail (List.cons_ne_nil _ _)]
    rfl

/-- A separator gives way to a NUL. -/
def nulSeparator (b : Byte) : Byte := if isSeparator b then 0 else b

theorem map_nulSeparator {t : Str} (ht : ∀ b ∈ t, isSeparator b = false) : t.map nulSeparator = t := by
  refine (List.map_congr_left fun b hb => ?_).trans (List.map_id t)
  unfold nulSeparator
  rw [ht b hb, if_neg Bool.false_ne_true]
  rfl

theorem nulSeparator_joinPairs {pairs : List (Str × Str)} (h : PlainPairs pairs) (hne : pairs ≠ []) :
    (joinPairs pairs).map nulSeparator ++ [0] = tokenMem (pairTokens pairs) := by
  fun_induction joinPairs pairs with
  | case1 => exact absurd rfl hne
  | case2 p =>
    obtain ⟨hk, hv⟩ := h p (List.mem_cons_self ..)
    have htokens : pairTokens [p] = [p.1, p.2] := rfl
    rw [htokens, tokenMem_cons, tokenMem_cons, List.map_append, List.map_cons, map_nulSeparator hk.not_separator,
      map_nulSeparator hv.not_separator, List.append_assoc]
    rfl
  | case3 p q rest ih =>
    obtain ⟨hk, hv⟩ := h p (List.mem_cons_self ..)
    have htokens : pairTokens (p :: q :: rest) = p.1 :: p.2 :: pairTokens (q :: rest) := rfl
    rw [htokens, tokenMem_cons, tokenMem_cons, ← ih h.tail (List.cons_ne_nil _ _), List.map_append, List.map_cons,
      List.map_append, List.map_cons, map_nulSeparator hk.not_separator, map_nulSeparator hv.not_separator]
    simp only [List.append_assoc, List.cons_append]
    rfl

/-- No character that `decodeenc` refuses. -/
def Clean (s : Str) : Prop := ∀ b ∈ s, isForbidden b = false

instance (s : Str) : Decidable (Clean s) := List.decidableBAll _ s

theorem decodeChar_plain {b : Byte} (hb : b ≠ ch '%') (rest : Str) : decodeChar b rest = (b, 0) := by
  unfold decodeChar
  split
  · rw [beq_eq_false_iff_ne.2 hb, Bool.false_and, Bool.false_and, if_neg Bool.false_ne_true]
  · rfl

theorem decodeStr_plain {s : Str} (hs : ch '%' ∉ s) : decodeStr 0 s = if Clean s then some s else none := by
  induction s with
  | nil => rfl
  | cons b rest ih =>
    obtain ⟨hb, hrest⟩ := not_or.1 (mt List.mem_cons.2 hs)
    rw [decodeStr, decodeChar_plain (Ne.symm hb), ih hrest]
    by_cases hf : isForbidden b = true
    · rw [if_pos hf, if_neg]
      intro hclean
      rw [hclean b (List.mem_cons_self ..)] at hf
      exact Bool.false_ne_true hf
    · have hiff : Clean (b :: rest) ↔ Clean rest := by
        unfold Clean
        rw [List.forall_mem_cons]
        exact and_iff_right (Bool.eq_false_iff.2 hf)
      rw [if_neg hf]
      simp only [hiff]
      split <;> rfl

theorem decodeenc_tokens (pre : Mem) {tokens : List Str} (h : ∀ t ∈ tokens, Plain t) :
    decodeenc (pre ++ tokenMem tokens) (tokenOffsets pre.length tokens) =
      if ∀ t ∈ tokens, Clean t then some (pre ++ tokenMem tokens) else none := by
  induction tokens generalizing pre with
  | nil => rfl
  | cons t rest ih =>
    obtain ⟨ht, hrest⟩ := List.forall_mem_cons.1 h
    have hmem : pre ++ tokenMem (t :: rest) = (pre ++ (t ++ [0])) ++ tokenMem rest := by
      rw [tokenMem_cons]
      simp
    have hpos : pre.length + t.length + 1 = (pre ++ (t ++ [0])).length := by
      simp
      omega
    have hwrite : write (pre ++ tokenMem (t :: rest)) pre.length (t ++ [0]) = pre ++ tokenMem (t :: rest) := by
      have hat := write_append pre (tokenMem (t :: rest)) 0 (t ++ [0])
      rw [Nat.add_zero] at hat
      rw [hat, tokenMem_cons]
      have hsame := write_same (t ++ [0]) (tokenMem rest)
      rw [List.append_assoc, List.singleton_append] at hsame
      rw [hsame]
    simp only [List.forall_mem_cons]
    rw [tokenOffsets, decodeenc, tokenMem_cons, strAt_token ht.nul, decodeStr_plain ht.percent, ← tokenMem_cons]
    by_cases hc : Clean t
    · rw [if_pos hc]
      simp only [hwrite]
      rw [hmem, hpos, ih _ hrest]
      simp only [hc, true_and]
    · rw [if_neg hc, if_neg fun hall => hc hall.1]

theorem processBuff_joinPairs {pairs : List (Str × Str)} (h : PlainPairs pairs) (hne : pairs ≠ []) :
    processBuff (joinPairs pairs ++ [0]) =
      if ∀ t ∈ pairTokens pairs, Clean t then
        some { mem := tokenMem (pairTokens pairs), ptr := tokenOffsets 0 (pairTokens pairs) }
      else none := by
  have hwrite : write (joinPairs pairs ++ [0]) 0 ((joinPairs pairs).map nulSeparator) = tokenMem (pairTokens pairs) := by
    rw [← nulSeparator_joinPairs h hne]
    unfold write
    rw [List.take_zero, List.nil_append, Nat.zero_add, List.length_map, List.drop_left]
  have hdecode := decodeenc_tokens [] h.tokens
  rw [List.nil_append, List.length_nil] at hdecode
  unfold processBuff
  simp only [strAt_zero (nul_notMem_joinPairs h) [], tokenStarts_joinPairs h hne]
  show Option.map _ (decodeenc (write _ 0 ((joinPairs pairs).map nulSeparator)) _) = _
  rw [hwrite, hdecode]
  split <;> rfl

/-! ## The query of a page -/

theorem after_append {c : Byte} {t : Str} (ht : c ∉ t) (rest : Str) : after c (t ++ c :: rest) = some rest := by
  have hdrop : (t ++ c :: rest).dropWhile (· != c) = c :: rest := by
    rw [List.dropWhile_append_of_pos (bne_of_notMem ht), List.dropWhile_cons_of_neg (by simp)]
  unfold after
  rw [hdrop]

theorem after_eq_none {c : Byte} {t : Str} (ht : c ∉ t) : after c t = none := by
  have hdrop : t.dropWhile (· != c) = [] := List.dropWhile_eq_nil_iff.2 (bne_of_notMem ht)
  unfold after
  rw [hdrop]

theorem Plain.equals {s : Str} (h : Plain s) : ch '=' ∉ s := fun hmem => (h _ hmem).2.2.2 rfl

theorem Plain.ampersand {s : Str} (h : Plain s) : ch '&' ∉ s := fun hmem => (h _ hmem).2.2.1 rfl

/-- A parameter that has nothing to unescape. -/
def plainParam (p : Str × Str) : Param := ⟨p.1, p.2, p.2⟩

theorem parseArgs_joinPairs (u : Unescaper) {pairs : List (Str × Str)} (h : PlainPairs pairs) {fuel : Nat}
    (hfuel : pairs.length < fuel) : parseArgs u fuel (joinPairs pairs) = .ok (pairs.map plainParam) := by
  induction pairs generalizing fuel with
  | nil =>
    obtain ⟨fuel, rfl⟩ := Nat.exists_eq_add_one_of_ne_zero (Nat.ne_of_gt hfuel)
    rfl
  | cons p rest ih =>
    obtain ⟨fuel, rfl⟩ := Nat.exists_eq_add_one_of_ne_zero (Nat.ne_of_gt (Nat.zero_lt_of_lt hfuel))
    obtain ⟨hk, hv⟩ := h p (List.mem_cons_self ..)
    have hrest := ih h.tail (Nat.lt_of_succ_lt_succ hfuel)
    cases rest with
    | nil =>
      rw [joinPairs, parseArgs, if_neg (by simp)]
      simp only [after_append hk.equals, takeWhile_append hk.equals, takeWhile_eq_self hv.ampersand,
        u.plain p.2 hv.percent, after_eq_none hv.ampersand, Option.getD_none]
      rw [if_neg (by simp), show parseArgs u fuel [] = .ok [] from hrest]
      rfl
    | cons q rest =>
      rw [joinPairs, parseArgs, if_neg (by simp)]
      simp only [after_append hk.equals, takeWhile_append hk.equals, takeWhile_append hv.ampersand,
        u.plain p.2 hv.percent, after_append hv.ampersand, Option.getD_some]
      rw [if_neg (by simp), hrest]
      rfl

theorem length_le_joinPairs (pairs : List (Str × Str)) : pairs.length ≤ (joinPairs pairs).length := by
  fun_induction joinPairs pairs with
  | case1 => exact Nat.le_refl _
  | case2 p =>
    simp only [List.length_append, List.length_cons, List.length_nil]
    omega
  | case3 p q rest ih =>
    simp only [List.length_append, List.length_cons] at ih ⊢
    omega

theorem getLast_joinPairs {pairs : List (Str × Str)} (h : PlainPairs pairs) :
    (joinPairs pairs).getLast? ≠ some (ch '&') := by
  fun_induction joinPairs pairs with
  | case1 => exact nofun
  | case2 p =>
    intro hlast
    have hmem := List.mem_of_getLast? hlast
    obtain ⟨hk, hv⟩ := h p (List.mem_cons_self ..)
    rcases List.mem_append.1 hmem with hmem | hmem
    · exact hk.ampersand hmem
    rcases List.mem_cons.1 hmem with hmem | hmem
    · exact absurd hmem (by decide)
    · exact hv.ampersand hmem
  | case3 p q rest ih =>
    have hne : joinPairs (q :: rest) ≠ [] := by
      intro hnil
      have hlen := length_le_joinPairs (q :: rest)
      rw [hnil] at hlen
      exact absurd hlen (by simp)
    rw [List.getLast?_append_cons, List.getLast?_cons_of_ne_nil (by simp), List.getLast?_append_cons,
      List.getLast?_cons_of_ne_nil hne]
    exact ih h.tail

theorem plainParam_mem (p : Str × Str) : (plainParam p).mem = tokenMem [p.1, p.2] := by
  have hsame := write_same (p.2 ++ [0]) []
  rw [List.append_nil] at hsame
  show p.1 ++ [0] ++ write (p.2 ++ [0]) 0 (p.2 ++ [0]) = _
  rw [hsame, tokenMem_cons, tokenMem_cons, List.append_assoc]
  rfl

theorem argsMem_joinPairs {pairs : List (Str × Str)} (h : PlainPairs pairs) (behind : Mem) :
    argsMem (joinPairs pairs) (pairs.map plainParam) behind = tokenMem (pairTokens pairs) ++ behind := by
  unfold argsMem
  rw [if_neg (getLast_joinPairs h), List.append_nil, List.flatMap_map]
  simp only [plainParam_mem]
  unfold tokenMem pairTokens
  rw [List.flatMap_assoc]

def readEntry (mem : Mem) (e : Entry) : Str × Str := (strAt mem e.key, strAt mem e.val)

theorem paramEntries_read {pairs : List (Str × Str)} (h : PlainPairs pairs) (pre behind : Mem) :
    (paramEntries pre.length (pairs.map plainParam)).map
      (readEntry (pre ++ (tokenMem (pairTokens pairs) ++ behind))) = pairs := by
  induction pairs generalizing pre with
  | nil => rfl
  | cons p rest ih =>
    obtain ⟨hk, hv⟩ := h p (List.mem_cons_self ..)
    have hmem : tokenMem (pairTokens (p :: rest)) = p.1 ++ 0 :: (p.2 ++ 0 :: tokenMem (pairTokens rest)) := by
      have htokens : pairTokens (p :: rest) = p.1 :: p.2 :: pairTokens rest := rfl
      rw [htokens, tokenMem_cons, tokenMem_cons]
    have hkey : strAt (pre ++ (tokenMem (pairTokens (p :: rest)) ++ behind)) pre.length = p.1 := by
      rw [hmem, List.append_assoc]
      exact strAt_token hk.nul pre _
    have hval : strAt (pre ++ (tokenMem (pairTokens (p :: rest)) ++ behind)) (pre.length + p.1.length + 1) = p.2 := by
      have hlen : pre.length + p.1.length + 1 = (pre ++ (p.1 ++ [0])).length := by simp; omega
      have hsplit : pre ++ (tokenMem (pairTokens (p :: rest)) ++ behind) =
          (pre ++ (p.1 ++ [0])) ++ (p.2 ++ 0 :: (tokenMem (pairTokens rest) ++ behind)) := by
        rw [hmem]
        simp
      rw [hlen, hsplit]
      exact strAt_token hv.nul _ _
    have hnext : pre.length + (plainParam p).mem.length = (pre ++ tokenMem [p.1, p.2]).length := by
      rw [plainParam_mem, List.length_append]
    have hrest : pre ++ (tokenMem (pairTokens (p :: rest)) ++ behind) =
        (pre ++ tokenMem [p.1, p.2]) ++ (tokenMem (pairTokens rest) ++ behind) := by
      rw [hmem, tokenMem_cons, tokenMem_cons]
      simp [tokenMem]
    rw [List.map_cons, paramEntries, List.map_cons, hnext]
    refine congrArg₂ List.cons ?_ ?_
    · exact Prod.ext hkey hval
    · rw [hrest]
      exact ih h.tail _

theorem paramEntries_ptr (pairs : List (Str × Str)) (pos : Nat) :
    (paramEntries pos (pairs.map plainParam)).flatMap (fun e => [e.key, e.val]) =
      tokenOffsets pos (pairTokens pairs) := by
  induction pairs generalizing pos with
  | nil => rfl
  | cons p rest ih =>
    have htokens : pairTokens (p :: rest) = p.1 :: p.2 :: pairTokens rest := rfl
    have hnext : pos + (plainParam p).mem.length = pos + p.1.length + 1 + p.2.length + 1 := by
      rw [plainParam_mem, tokenMem_cons, tokenMem_cons]
      simp [tokenMem]
      omega
    rw [List.map_cons, paramEntries, List.flatMap_cons, ih, hnext, htokens]
    rfl

theorem aprTableSetn_new {mem : Mem} {entries : List Entry} {e : Entry}
    (h : ∀ x ∈ entries, caseEq (strAt mem x.key) (strAt mem e.key) = false) :
    aprTableSetn mem entries e = entries ++ [e] := by
  induction entries with
  | nil => rfl
  | cons x rest ih =>
    obtain ⟨hx, hrest⟩ := List.forall_mem_cons.1 h
    rw [aprTableSetn, hx, if_neg Bool.false_ne_true, ih hrest]
    rfl

theorem aprTableSetn_distinct {mem : Mem} (entries more : List Entry)
    (h : (entries ++ more).Pairwise fun x e => caseEq (strAt mem x.key) (strAt mem e.key) = false) :
    more.foldl (aprTableSetn mem) entries = entries ++ more := by
  induction more generalizing entries with
  | nil => rw [List.foldl_nil, List.append_nil]
  | cons e rest ih =>
    have hnew : ∀ x ∈ entries, caseEq (strAt mem x.key) (strAt mem e.key) = false := fun x hx =>
      (List.pairwise_append.1 h).2.2 x hx e (List.mem_cons_self ..)
    have hsplit : entries ++ e :: rest = entries ++ [e] ++ rest := by simp
    rw [List.foldl_cons, aprTableSetn_new hnew, hsplit]
    exact ih _ (hsplit ▸ h)

/-- The value a parameter has, whatever the case its key is written in. -/
def paramValue (pairs : List (Str × Str)) (key : Str) : Option Str :=
  (pairs.find? fun p => caseEq p.1 key).map (·.2)

theorem aprTableGet_read (mem : Mem) (entries : List Entry) (key : Str) :
    aprTableGet mem entries key = paramValue (entries.map (readEntry mem)) key := by
  unfold aprTableGet paramValue
  rw [List.find?_map, Option.map_map]
  rfl

/-- No two keys are the same up to case. -/
def DistinctKeys (pairs : List (Str × Str)) : Prop := pairs.Pairwise fun p q => caseEq p.1 q.1 = false

theorem managerInfo_joinPairs (httpd : Httpd) (u : Unescaper) {conf : PageConf} (now : Int) (ts : Tables) (filename : Str)
    {pairs : List (Str × Str)} (behind : Mem) (h : PlainPairs pairs) (hkeys : DistinctKeys pairs)
    (hnonce : conf.nonce = true → paramValue pairs (ascii "nonce") = some conf.balancerNonce) :
    (managerInfo httpd u conf now ts filename (some (joinPairs pairs)) behind).tables =
      (processParams httpd conf now ts filename (tokenMem (pairTokens pairs) ++ behind)
        (paramEntries 0 (pairs.map plainParam))).1 := by
  have hread := paramEntries_read h [] behind
  rw [List.length_nil, List.nil_append] at hread
  have hfuel : pairs.length < (joinPairs pairs).length + 1 := Nat.lt_succ_of_le (length_le_joinPairs pairs)
  have hfold : (paramEntries 0 (pairs.map plainParam)).foldl
      (aprTableSetn (tokenMem (pairTokens pairs) ++ behind)) [] = paramEntries 0 (pairs.map plainParam) := by
    refine aprTableSetn_distinct [] _ ?_
    unfold DistinctKeys at hkeys
    rw [← hread, List.pairwise_map] at hkeys
    exact hkeys
  unfold managerInfo
  simp only [parseArgs_joinPairs u h hfuel, argsMem_joinPairs h, hfold]
  rw [if_neg]
  rintro ⟨hon, hne⟩
  rw [aprTableGet_read, hread] at hne
  exact hne (hnonce hon)

end ModCluster
