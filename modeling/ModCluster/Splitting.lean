import ModCluster.Receive
import ModCluster.Decoding
import ModCluster.Alphabet

/-!
# Splitting and decoding a body

What `process_buff` makes of a body, token by token: where it is split, what every
token is decoded to, and which bodies are refused. A body that encodes its keys and
values is read back.
-/

open CString

namespace ModCluster

/-! ## Decoding in place -/

/-- The loop of `decodeenc` over the token at `p`. It reads at `i` and writes at `j`. -/
def decodeLoop (p : Nat) : (fuel i j : Nat) → Mem → Option Mem
  | 0, _, _, _ => none
  | fuel + 1, i, j, mem =>
    if byteAt mem (p + i) = 0 then some (write mem (p + j) [0])
    else
      let c := decodeChar (byteAt mem (p + i)) [byteAt mem (p + i + 1), byteAt mem (p + i + 2)]
      if isForbidden c.1 then none else decodeLoop p fuel (i + c.2 + 1) (j + 1) (write mem (p + j) [c.1])

def decodeencLoop (mem : Mem) : List Nat → Option Mem
  | [] => some mem
  | p :: ptr =>
    if byteAt mem p = 0 then decodeencLoop mem ptr
    else
      match decodeLoop p ((strAt mem p).length + 1) 0 0 mem with
      | some mem => decodeencLoop mem ptr
      | none => none

/-- `process_buff`, with the decoding as the loops do it. -/
def processBuffLoop (buff : Mem) : Option Argv :=
  let text := strAt buff 0
  let ptr := 0 :: tokenStarts 0 text
  let mem := write buff 0 (text.map fun b => if isSeparator b then 0 else b)
  (decodeencLoop mem ptr).map fun mem => { mem := mem, ptr := ptr }

theorem decodeChar_lookahead (b : Byte) (rest : Str) (tail : Mem) :
    decodeChar b [byteAt (rest ++ 0 :: tail) 0, byteAt (rest ++ 0 :: tail) 1] = decodeChar b rest := by
  have hnul : isXDigit 0 = false := by decide
  match rest with
  | [] =>
    have h0 : byteAt ([] ++ 0 :: tail) 0 = 0 := rfl
    rw [h0]
    simp [decodeChar, hnul]
  | [x] =>
    have h1 : byteAt ([x] ++ 0 :: tail) 1 = 0 := rfl
    rw [h1]
    simp [decodeChar, hnul]
  | x :: y :: rest => rfl

theorem write_cons (m : Mem) (p : Nat) (b : Byte) (s : List Byte) (hp : p < m.length) :
    write (write m p [b]) (p + 1) s = write m p (b :: s) := by
  have htake : (m.take p ++ [b]).length = p + 1 := by
    rw [List.length_append, List.length_take, List.length_singleton]
    omega
  unfold write
  rw [List.length_singleton, List.take_left' htake, ← List.drop_drop, List.drop_left' htake, List.drop_drop]
  simp
  congr 1
  omega

theorem decodeStr_skip (n : Nat) (s : Str) : decodeStr n s = decodeStr 0 (s.drop n) := by
  induction n generalizing s with
  | zero => rfl
  | succ n ih =>
    cases s with
    | nil => rfl
    | cons b rest =>
      rw [decodeStr, ih]
      rfl

theorem decodeLoop_eq {p fuel i j : Nat} {mem tail : Mem} {s : Str} (hs : 0 ∉ s) (hji : j ≤ i)
    (hdrop : mem.drop (p + i) = s ++ 0 :: tail) (hfuel : s.length < fuel) :
    decodeLoop p fuel i j mem = (decodeStr 0 s).map fun t => write mem (p + j) (t ++ [0]) := by
  induction fuel generalizing i j mem s with
  | zero => omega
  | succ fuel ih =>
    have hat : ∀ k, byteAt mem (p + i + k) = byteAt (s ++ 0 :: tail) k := by
      intro k
      rw [← hdrop, byteAt_drop]
    have hlt : p + i < mem.length := by
      have hlen := congrArg List.length hdrop
      rw [List.length_drop, List.length_append, List.length_cons] at hlen
      omega
    rw [decodeLoop]
    cases s with
    | nil =>
      have h0 : byteAt mem (p + i) = 0 := hat 0
      rw [if_pos h0]
      rfl
    | cons b rest =>
      obtain ⟨hb, hrest⟩ : b ≠ 0 ∧ 0 ∉ rest := by
        rw [List.mem_cons, not_or] at hs
        exact ⟨fun h => hs.1 h.symm, hs.2⟩
      have h0 : byteAt mem (p + i) = b := hat 0
      have h1 : byteAt mem (p + i + 1) = byteAt (rest ++ 0 :: tail) 0 := hat 1
      have h2 : byteAt mem (p + i + 2) = byteAt (rest ++ 0 :: tail) 1 := hat 2
      rw [if_neg (by rw [h0]; exact hb), h0, h1, h2, decodeChar_lookahead, decodeStr]
      simp only
      split
      · rfl
      have hskip : (decodeChar b rest).2 ≤ rest.length := by
        rcases decodeChar_cases b rest with hsame | ⟨-, htwo, x, y, rest', rfl, -, -⟩
        · rw [hsame]
          exact Nat.zero_le _
        · rw [htwo]
          simp
      have hnext : (write mem (p + j) [(decodeChar b rest).1]).drop (p + (i + (decodeChar b rest).2 + 1)) =
          rest.drop (decodeChar b rest).2 ++ 0 :: tail := by
        have hbehind : (write mem (p + j) [(decodeChar b rest).1]).drop (p + j + 1) = mem.drop (p + j + 1) := by
          unfold write
          have htake : (mem.take (p + j) ++ [(decodeChar b rest).1]).length = p + j + 1 := by
            rw [List.length_append, List.length_take, List.length_singleton]
            omega
          rw [List.drop_left' htake, List.length_singleton]
        have hsum : p + (i + (decodeChar b rest).2 + 1) = p + j + 1 + (i - j + (decodeChar b rest).2) := by omega
        have hsum' : p + j + 1 + (i - j + (decodeChar b rest).2) = p + i + (1 + (decodeChar b rest).2) := by omega
        rw [hsum, ← List.drop_drop, hbehind, List.drop_drop, hsum', ← List.drop_drop, hdrop, Nat.add_comm 1,
          List.cons_append, List.drop_succ_cons, List.drop_append_of_le_length hskip]
      have hlen : (rest.drop (decodeChar b rest).2).length < fuel := by
        rw [List.length_drop]
        rw [List.length_cons] at hfuel
        omega
      have hnul : 0 ∉ rest.drop (decodeChar b rest).2 := fun hmem => hrest (List.mem_of_mem_drop hmem)
      rw [ih hnul (by omega) hnext hlen, decodeStr_skip (decodeChar b rest).2, Option.map_map]
      congr 1
      funext t
      exact write_cons mem (p + j) _ (t ++ [0]) (by omega)

/-! ## One token after the other -/

/-- The bytes of a token `r` once it is decoded to `s`. -/
def decodedToken (r s : Str) : Mem := s ++ 0 :: (r ++ [0]).drop (s.length + 1)

theorem length_decodedToken {r s : Str} (h : decodeStr 0 r = some s) : (decodedToken r s).length = r.length + 1 := by
  have hlen := length_decodeStr_le h
  unfold decodedToken
  rw [List.length_append, List.length_cons, List.length_drop, List.length_append, List.length_singleton]
  omega

theorem write_decoded {r s : Str} (h : decodeStr 0 r = some s) (done rest : Mem) :
    write (done ++ (r ++ 0 :: rest)) done.length (s ++ [0]) = (done ++ decodedToken r s) ++ rest := by
  rw [write_token (length_decodeStr_le h)]
  unfold decodedToken
  simp

theorem decodeenc_cons {r : Str} (hr : 0 ∉ r) (done rest : Mem) (ptr : List Nat) :
    decodeenc (done ++ (r ++ 0 :: rest)) (done.length :: ptr) =
      (decodeStr 0 r).bind fun s => decodeenc ((done ++ decodedToken r s) ++ rest) ptr := by
  rw [decodeenc, strAt_token hr]
  cases hdecode : decodeStr 0 r with
  | none => rfl
  | some s =>
    have hwrite := write_decoded hdecode done rest
    simp only [hwrite, Option.bind_some]

theorem decodeencLoop_cons {r : Str} (hr : 0 ∉ r) (done rest : Mem) (ptr : List Nat) :
    decodeencLoop (done ++ (r ++ 0 :: rest)) (done.length :: ptr) =
      (decodeStr 0 r).bind fun s => decodeencLoop ((done ++ decodedToken r s) ++ rest) ptr := by
  have hdrop : (done ++ (r ++ 0 :: rest)).drop (done.length + 0) = r ++ 0 :: rest := List.drop_left
  have hat : byteAt (done ++ (r ++ 0 :: rest)) done.length = byteAt (r ++ 0 :: rest) 0 := by
    have h := byteAt_drop (done ++ (r ++ 0 :: rest)) (done.length + 0) 0
    rw [hdrop] at h
    exact h.symm
  rw [decodeencLoop, hat, strAt_token hr]
  cases hnil : r with
  | nil =>
    have h0 : byteAt ([] ++ 0 :: rest) 0 = 0 := rfl
    rw [if_pos h0]
    simp [decodeStr, decodedToken]
  | cons b r' =>
    have hb : byteAt (b :: r' ++ 0 :: rest) 0 ≠ 0 := by
      intro h
      have hb0 : b = 0 := h
      exact hr (by rw [hnil, hb0]; exact List.mem_cons_self)
    rw [if_neg hb, ← hnil, decodeLoop_eq hr (Nat.le_refl 0) hdrop (Nat.lt_succ_self _)]
    cases hdecode : decodeStr 0 r with
    | none => rfl
    | some s =>
      rw [Option.map_some, Nat.add_zero, write_decoded hdecode]
      rfl

theorem map_nulSeparator_cons {r : Str} (hr : ∀ b ∈ r, isSeparator b = false) {sep : Byte} (hsep : isSeparator sep = true)
    (rest : Str) (behind : Mem) :
    (r ++ sep :: rest).map nulSeparator ++ 0 :: behind = r ++ 0 :: (rest.map nulSeparator ++ 0 :: behind) := by
  have hnul : nulSeparator sep = 0 := if_pos hsep
  rw [List.map_append, List.map_cons, map_nulSeparator hr, hnul, List.append_assoc, List.cons_append]

theorem decodeencLoop_eq (text : Str) (htext : 0 ∉ text) (done behind : Mem) :
    decodeencLoop (done ++ (text.map nulSeparator ++ 0 :: behind)) (done.length :: tokenStarts done.length text) =
      decodeenc (done ++ (text.map nulSeparator ++ 0 :: behind)) (done.length :: tokenStarts done.length text) := by
  induction hn : text.length using Nat.strong_induction_on generalizing text done with
  | _ n ih =>
    subst hn
    obtain ⟨r, hr, rfl | ⟨sep, rest, hsep, rfl⟩⟩ := exists_first_token text
    · rw [map_nulSeparator hr, tokenStarts_last hr, decodeencLoop_cons htext, decodeenc_cons htext]
      rfl
    · have hr0 : 0 ∉ r := fun hmem => htext (List.mem_append_left _ hmem)
      have hrest0 : 0 ∉ rest := fun hmem => htext (List.mem_append_right _ (List.mem_cons_of_mem _ hmem))
      rw [map_nulSeparator_cons hr hsep, tokenStarts_token hr hsep, decodeencLoop_cons hr0, decodeenc_cons hr0]
      cases hdecode : decodeStr 0 r with
      | none => rfl
      | some s =>
        have hpos : done.length + r.length + 1 = (done ++ decodedToken r s).length := by
          rw [List.length_append, length_decodedToken hdecode]
          omega
        rw [Option.bind_some, Option.bind_some, hpos]
        exact ih rest.length (by simp; omega) rest hrest0 _ rfl

theorem write_text (text : Str) (behind : Mem) :
    write (text ++ 0 :: behind) 0 (text.map nulSeparator) = text.map nulSeparator ++ 0 :: behind := by
  unfold write
  rw [List.take_zero, List.nil_append, Nat.zero_add, List.length_map, List.drop_left]

theorem processBuff_eq {text : Str} (htext : 0 ∉ text) (behind : Mem) :
    processBuff (text ++ 0 :: behind) =
      (decodeenc (text.map nulSeparator ++ 0 :: behind) (0 :: tokenStarts 0 text)).map (⟨·, 0 :: tokenStarts 0 text⟩) := by
  unfold processBuff
  simp only [strAt_zero htext]
  rw [← write_text]
  rfl

theorem processBuffLoop_eq {text : Str} (htext : 0 ∉ text) (behind : Mem) :
    processBuffLoop (text ++ 0 :: behind) = processBuff (text ++ 0 :: behind) := by
  rw [processBuff_eq htext]
  have hloop := decodeencLoop_eq text htext [] behind
  rw [List.nil_append, List.length_nil] at hloop
  rw [← hloop, ← write_text]
  unfold processBuffLoop
  simp only [strAt_zero htext]
  rfl

/-! ## What a token stands for -/

/-- Every percent sign with two hex digits behind it stands for one byte. What a sign
stands for is not looked at again. -/
def percentDecode : Str → List Byte
  | b :: x :: y :: rest =>
    if b = ch '%' ∧ isXDigit x = true ∧ isXDigit y = true then modManagerHex2c x y :: percentDecode rest
    else b :: percentDecode (x :: y :: rest)
  | s => s

/-- A token as C reads it: up to the first NUL, which may have been encoded. -/
def readToken (t : Str) : Str := (percentDecode t).takeWhile (· != 0)

/-- The array that `process_buff` returns, with the NULL behind it. -/
def Argv.array (argv : Argv) : List (Option Str) := argv.ptr.map (fun p => some (strAt argv.mem p)) ++ [none]

theorem percentDecode_plain {b : Byte} (hb : b ≠ ch '%') (rest : Str) :
    percentDecode (b :: rest) = b :: percentDecode rest := by
  match rest with
  | [] => rfl
  | [x] => rfl
  | x :: y :: rest => rw [percentDecode, if_neg fun h => hb h.1]

theorem decodeChar_percentDecode (b : Byte) (rest : Str) :
    percentDecode (b :: rest) = (decodeChar b rest).1 :: percentDecode (rest.drop (decodeChar b rest).2) := by
  match rest with
  | [] => rfl
  | [x] => rfl
  | x :: y :: rest =>
    rw [percentDecode, decodeChar]
    by_cases hhex : b = ch '%' ∧ isXDigit x = true ∧ isXDigit y = true
    · rw [if_pos hhex, if_pos (by simp [hhex])]
      rfl
    · rw [if_neg hhex, if_neg (by simpa [and_assoc] using hhex)]
      rfl

theorem decodeStr_eq (s : Str) : decodeStr 0 s = if Clean (percentDecode s) then some (percentDecode s) else none := by
  induction hn : s.length using Nat.strong_induction_on generalizing s with
  | _ n ih =>
    subst hn
    cases s with
    | nil => rfl
    | cons b rest =>
      have hlt : (rest.drop (decodeChar b rest).2).length < (b :: rest).length := by
        rw [List.length_drop, List.length_cons]
        omega
      rw [decodeStr, decodeStr_skip, ih _ hlt _ rfl, decodeChar_percentDecode]
      generalize percentDecode (rest.drop (decodeChar b rest).2) = t
      have hcons : Clean ((decodeChar b rest).1 :: t) ↔ isForbidden (decodeChar b rest).1 = false ∧ Clean t :=
        List.forall_mem_cons
      by_cases hb : isForbidden (decodeChar b rest).1 = true
      · rw [if_pos hb, if_neg]
        rw [hcons, hb]
        simp
      · rw [if_neg hb]
        by_cases ht : Clean t
        · rw [if_pos ht, if_pos (hcons.mpr ⟨Bool.eq_false_iff.mpr hb, ht⟩)]
          rfl
        · rw [if_neg ht, if_neg fun h => ht (hcons.mp h).2]
          rfl

theorem exists_readToken {r : Str} (hclean : Clean (percentDecode r)) :
    ∃ sk : Mem, 0 ∉ readToken r ∧ (readToken r).length + 1 + sk.length = r.length + 1 ∧
      decodedToken r (percentDecode r) = readToken r ++ 0 :: sk := by
  have hdecode := decodeStr_eq r
  rw [if_pos hclean] at hdecode
  have hlen := length_decodedToken hdecode
  obtain ⟨k, sk, hk, heq, -, -⟩ := exists_token (percentDecode r) ((r ++ [0]).drop ((percentDecode r).length + 1))
  have hread : readToken r = k := by
    have hstr := congrArg (fun m => strAt m 0) heq
    simp only [strAt_zero hk] at hstr
    rw [← hstr]
    exact (strAt_text _).symm
  have harea : decodedToken r (percentDecode r) =
      readToken r ++ 0 :: (sk ++ (r ++ [0]).drop ((percentDecode r).length + 1)) := by
    rw [hread]
    exact heq
  refine ⟨sk ++ (r ++ [0]).drop ((percentDecode r).length + 1), by rw [hread]; exact hk, ?_, harea⟩
  rw [harea, List.length_append, List.length_cons] at hlen
  omega

theorem decodeenc_tokens_at (text : Str) (htext : 0 ∉ text) (done behind : Mem)
    (hclean : ∀ t ∈ text.splitOnP isSeparator, Clean (percentDecode t)) :
    ∃ mem, decodeenc (done ++ (text.map nulSeparator ++ 0 :: behind))
        (done.length :: tokenStarts done.length text) = some (done ++ mem) ∧
      TokensAt done.length ((text.splitOnP isSeparator).map readToken) mem
        (done.length :: tokenStarts done.length text) := by
  induction hn : text.length using Nat.strong_induction_on generalizing text done with
  | _ n ih =>
    subst hn
    obtain ⟨r, hr, rfl | ⟨sep, rest, hsep, rfl⟩⟩ := exists_first_token text
    · rw [List.splitOnP_eq_singleton hr] at hclean ⊢
      have hr' := hclean _ List.mem_cons_self
      obtain ⟨sk, hk, hlen, harea⟩ := exists_readToken hr'
      rw [map_nulSeparator hr, tokenStarts_last hr, decodeenc_cons htext, decodeStr_eq, if_pos hr', Option.bind_some,
        harea]
      refine ⟨_, by rw [decodeenc, List.append_assoc], ?_⟩
      have htokens := @TokensAt.cons done.length _ sk [] behind [] hk (.nil behind)
      simpa using htokens
    · have hr0 : 0 ∉ r := fun hmem => htext (List.mem_append_left _ hmem)
      have hrest0 : 0 ∉ rest := fun hmem => htext (List.mem_append_right _ (List.mem_cons_of_mem _ hmem))
      rw [List.splitOnP_append_cons_of_forall_mem hr sep hsep] at hclean ⊢
      obtain ⟨hr', hrest'⟩ := List.forall_mem_cons.mp hclean
      obtain ⟨sk, hk, hlen, harea⟩ := exists_readToken hr'
      have hpos : done.length + r.length + 1 = (done ++ (readToken r ++ 0 :: sk)).length := by
        rw [List.length_append, List.length_append, List.length_cons]
        omega
      rw [map_nulSeparator_cons hr hsep, tokenStarts_token hr hsep, decodeenc_cons hr0, decodeStr_eq, if_pos hr',
        Option.bind_some, harea, hpos]
      obtain ⟨mem, hmem, htokens⟩ := ih rest.length (by simp; omega) rest hrest0 _ hrest' rfl
      refine ⟨readToken r ++ 0 :: (sk ++ mem), by rw [hmem]; simp, ?_⟩
      rw [List.map_cons]
      refine .cons hk ?_
      have hat : done.length + ((readToken r).length + 1 + sk.length) = (done ++ (readToken r ++ 0 :: sk)).length := by
        rw [List.length_append, List.length_append, List.length_cons]
        omega
      rw [hat]
      exact htokens

theorem decodeenc_refused (text : Str) (htext : 0 ∉ text) (done behind : Mem)
    (hbad : ∃ t ∈ text.splitOnP isSeparator, ¬ Clean (percentDecode t)) :
    decodeenc (done ++ (text.map nulSeparator ++ 0 :: behind)) (done.length :: tokenStarts done.length text) = none := by
  induction hn : text.length using Nat.strong_induction_on generalizing text done with
  | _ n ih =>
    subst hn
    obtain ⟨r, hr, rfl | ⟨sep, rest, hsep, rfl⟩⟩ := exists_first_token text
    · rw [List.splitOnP_eq_singleton hr] at hbad
      obtain ⟨t, ht, hbad⟩ := hbad
      rw [List.mem_singleton.mp ht] at hbad
      rw [map_nulSeparator hr, tokenStarts_last hr, decodeenc_cons htext, decodeStr_eq, if_neg hbad]
      rfl
    · have hr0 : 0 ∉ r := fun hmem => htext (List.mem_append_left _ hmem)
      have hrest0 : 0 ∉ rest := fun hmem => htext (List.mem_append_right _ (List.mem_cons_of_mem _ hmem))
      rw [List.splitOnP_append_cons_of_forall_mem hr sep hsep] at hbad
      rw [map_nulSeparator_cons hr hsep, tokenStarts_token hr hsep, decodeenc_cons hr0, decodeStr_eq]
      by_cases hr' : Clean (percentDecode r)
      · have hdecode := decodeStr_eq r
        rw [if_pos hr'] at hdecode
        have hpos : done.length + r.length + 1 = (done ++ decodedToken r (percentDecode r)).length := by
          rw [List.length_append, length_decodedToken hdecode]
          omega
        have hlater : ∃ t ∈ rest.splitOnP isSeparator, ¬ Clean (percentDecode t) := by
          obtain ⟨t, ht, hbad⟩ := hbad
          rcases List.mem_cons.mp ht with rfl | ht
          · exact absurd hr' hbad
          · exact ⟨t, ht, hbad⟩
        rw [if_pos hr', Option.bind_some, hpos]
        exact ih rest.length (by simp; omega) rest hrest0 _ hlater rfl
      · rw [if_neg hr']
        rfl

theorem TokensAt.read {pos : Nat} {tokens : List Str} {mem : Mem} {ptr : List Nat} (h : TokensAt pos tokens mem ptr)
    (done : Mem) (hdone : done.length = pos) : ptr.map (strAt (done ++ mem)) = tokens := by
  induction h generalizing done with
  | nil behind => rfl
  | @cons pos k sk tokens mem ptr hk h ih =>
    have hat : (done ++ (k ++ 0 :: sk)).length = pos + (k.length + 1 + sk.length) := by
      rw [List.length_append, List.length_append, List.length_cons]
      omega
    have hrest := ih (done ++ (k ++ 0 :: sk)) hat
    have hassoc : done ++ (k ++ 0 :: sk) ++ mem = done ++ (k ++ 0 :: (sk ++ mem)) := by simp
    rw [hassoc] at hrest
    rw [List.map_cons, hrest, ← hdone, strAt_token hk]

/-- The array of a body that is decoded: all of its tokens. -/
theorem processBuff_array {text : Str} (htext : 0 ∉ text) (behind : Mem)
    (hclean : ∀ t ∈ text.splitOnP isSeparator, Clean (percentDecode t)) :
    ∃ argv, processBuff (text ++ 0 :: behind) = some argv ∧
      argv.array = (text.splitOnP isSeparator).map (fun t => some (readToken t)) ++ [none] := by
  obtain ⟨mem, hmem, htokens⟩ := decodeenc_tokens_at text htext [] behind hclean
  rw [List.nil_append, List.length_nil, List.nil_append] at hmem
  refine ⟨⟨mem, 0 :: tokenStarts 0 text⟩, by rw [processBuff_eq htext, hmem]; rfl, ?_⟩
  have hread := htokens.read [] rfl
  rw [List.nil_append, List.length_nil] at hread
  have hsome := congrArg (List.map some) hread
  rw [List.map_map, List.map_map] at hsome
  exact congrArg (· ++ [none]) hsome

/-! ## Encoded bodies -/

def hexChar (upper : Bool) (n : Byte) : Byte := if n < 10 then n + 48 else if upper then n + 55 else n + 87

/-- The bytes that `escape` names as a percent sign and two digits, the others as they
are. -/
def percentEncode (escape : Byte → Bool) (upper : Bool) (s : Str) : Str :=
  s.flatMap fun b => if escape b then [ch '%', hexChar upper (b / 16), hexChar upper (b % 16)] else [b]

def encodePairs (escape : Byte → Bool) (upper : Bool) (pairs : List (Str × Str)) : List (Str × Str) :=
  pairs.map fun p => (percentEncode escape upper p.1, percentEncode escape upper p.2)

/-- The characters that have a meaning of their own in a body. -/
def isSpecial (b : Byte) : Bool := b == ch '%' || isSeparator b

theorem hexChar_spec (upper : Bool) :
    ∀ b : Byte, isXDigit (hexChar upper (b / 16)) = true ∧ isXDigit (hexChar upper (b % 16)) = true ∧
      modManagerHex2c (hexChar upper (b / 16)) (hexChar upper (b % 16)) = b := by
  cases upper
  · exact forall_byte (by decide +kernel)
  · exact forall_byte (by decide +kernel)

theorem isXDigit_spec : ∀ b : Byte, isXDigit b = true → b ≠ 0 ∧ isSeparator b = false :=
  forall_byte (by decide +kernel)

variable {escape : Byte → Bool} {upper : Bool}

theorem percentEncode_cons (b : Byte) (s : Str) : percentEncode escape upper (b :: s) =
    (if escape b then [ch '%', hexChar upper (b / 16), hexChar upper (b % 16)] else [b]) ++
      percentEncode escape upper s := rfl

theorem percentDecode_percentEncode (hescape : ∀ b, isSpecial b = true → escape b = true) (s : Str) :
    percentDecode (percentEncode escape upper s) = s := by
  induction s with
  | nil => rfl
  | cons b s ih =>
    rw [percentEncode_cons]
    obtain ⟨hx, hy, hb⟩ := hexChar_spec upper b
    split
    · rw [List.cons_append, List.cons_append, List.cons_append, List.nil_append, percentDecode,
        if_pos ⟨rfl, hx, hy⟩, hb, ih]
    · rename_i hplain
      have hne : b ≠ ch '%' := by
        rintro rfl
        exact hplain (hescape _ rfl)
      rw [List.singleton_append, percentDecode_plain hne, ih]

theorem percentEncode_mem (hescape : ∀ b, isSpecial b = true → escape b = true) {s : Str} (hs : 0 ∉ s) :
    ∀ c ∈ percentEncode escape upper s, c ≠ 0 ∧ isSeparator c = false := by
  intro c hc
  obtain ⟨b, hb, hc⟩ := List.mem_flatMap.mp hc
  obtain ⟨hx, hy, -⟩ := hexChar_spec upper b
  split at hc
  · simp only [List.mem_cons, List.not_mem_nil, or_false] at hc
    rcases hc with rfl | rfl | rfl
    · decide
    · exact isXDigit_spec _ hx
    · exact isXDigit_spec _ hy
  · rename_i hplain
    rw [List.mem_singleton.mp hc]
    refine ⟨fun h => hs (h ▸ hb), Bool.eq_false_iff.mpr fun hsep => hplain (hescape b ?_)⟩
    rw [isSpecial, hsep, Bool.or_true]

theorem splitOnP_joinPairs {pairs : List (Str × Str)} (hne : pairs ≠ [])
    (h : ∀ p ∈ pairs, (∀ b ∈ p.1, isSeparator b = false) ∧ ∀ b ∈ p.2, isSeparator b = false) :
    (joinPairs pairs).splitOnP isSeparator = pairTokens pairs := by
  fun_induction joinPairs pairs with
  | case1 => exact absurd rfl hne
  | case2 p =>
    obtain ⟨hk, hv⟩ := h p List.mem_cons_self
    rw [List.splitOnP_append_cons_of_forall_mem hk _ (by decide), List.splitOnP_eq_singleton hv]
    rfl
  | case3 p q rest ih =>
    obtain ⟨hk, hv⟩ := h p List.mem_cons_self
    rw [List.splitOnP_append_cons_of_forall_mem hk _ (by decide), List.splitOnP_append_cons_of_forall_mem hv _ (by decide),
      ih (List.cons_ne_nil _ _) fun p hp => h p (List.mem_cons_of_mem _ hp)]
    rfl

theorem nul_notMem_joined {pairs : List (Str × Str)} (h : ∀ p ∈ pairs, 0 ∉ p.1 ∧ 0 ∉ p.2) : 0 ∉ joinPairs pairs := by
  fun_induction joinPairs pairs with
  | case1 => exact List.not_mem_nil
  | case2 p =>
    obtain ⟨hk, hv⟩ := h p List.mem_cons_self
    simp only [List.mem_append, List.mem_cons, not_or]
    exact ⟨hk, by decide, hv⟩
  | case3 p q rest ih =>
    obtain ⟨hk, hv⟩ := h p List.mem_cons_self
    simp only [List.mem_append, List.mem_cons, not_or]
    exact ⟨hk, by decide, hv, by decide, ih fun p hp => h p (List.mem_cons_of_mem _ hp)⟩

theorem pairTokens_encodePairs (pairs : List (Str × Str)) :
    pairTokens (encodePairs escape upper pairs) = (pairTokens pairs).map (percentEncode escape upper) := by
  unfold pairTokens encodePairs
  rw [List.flatMap_map, List.map_flatMap]
  rfl

theorem readToken_percentEncode (hescape : ∀ b, isSpecial b = true → escape b = true) {s : Str} (hs : 0 ∉ s) :
    readToken (percentEncode escape upper s) = s := by
  unfold readToken
  rw [percentDecode_percentEncode hescape, takeWhile_nul_eq]
  exact hs

theorem encodePairs_mem (hescape : ∀ b, isSpecial b = true → escape b = true) {pairs : List (Str × Str)}
    (hpairs : ∀ t ∈ pairTokens pairs, 0 ∉ t ∧ Clean t) :
    ∀ p ∈ encodePairs escape upper pairs,
      (∀ c ∈ p.1, c ≠ 0 ∧ isSeparator c = false) ∧ ∀ c ∈ p.2, c ≠ 0 ∧ isSeparator c = false := by
  intro p hp
  obtain ⟨q, hq, rfl⟩ := List.mem_map.mp hp
  have hkey : q.1 ∈ pairTokens pairs := List.mem_flatMap.mpr ⟨q, hq, List.mem_cons_self⟩
  have hval : q.2 ∈ pairTokens pairs := List.mem_flatMap.mpr ⟨q, hq, List.mem_cons_of_mem _ List.mem_cons_self⟩
  exact ⟨percentEncode_mem hescape (hpairs _ hkey).1, percentEncode_mem hescape (hpairs _ hval).1⟩

theorem nul_notMem_encoded (hescape : ∀ b, isSpecial b = true → escape b = true) {pairs : List (Str × Str)}
    (hpairs : ∀ t ∈ pairTokens pairs, 0 ∉ t ∧ Clean t) : 0 ∉ joinPairs (encodePairs escape upper pairs) := by
  refine nul_notMem_joined fun p hp => ?_
  obtain ⟨hk, hv⟩ := encodePairs_mem hescape hpairs p hp
  exact ⟨fun h => (hk 0 h).1 rfl, fun h => (hv 0 h).1 rfl⟩

/-- Keys and values that are encoded come back. -/
theorem processBuff_encoded (hescape : ∀ b, isSpecial b = true → escape b = true) {pairs : List (Str × Str)}
    (hne : pairs ≠ []) (hpairs : ∀ t ∈ pairTokens pairs, 0 ∉ t ∧ Clean t) (behind : Mem) :
    ∃ argv, processBuff (joinPairs (encodePairs escape upper pairs) ++ 0 :: behind) = some argv ∧
      argv.array = (pairTokens pairs).map some ++ [none] := by
  have hparts := @encodePairs_mem escape upper hescape pairs hpairs
  have hnul := @nul_notMem_encoded escape upper hescape pairs hpairs
  have hsplit : (joinPairs (encodePairs escape upper pairs)).splitOnP isSeparator =
      (pairTokens pairs).map (percentEncode escape upper) := by
    rw [splitOnP_joinPairs, pairTokens_encodePairs]
    · exact fun h => hne (List.map_eq_nil_iff.mp h)
    · exact fun p hp => ⟨fun b hb => ((hparts p hp).1 b hb).2, fun b hb => ((hparts p hp).2 b hb).2⟩
  have hclean : ∀ t ∈ (joinPairs (encodePairs escape upper pairs)).splitOnP isSeparator, Clean (percentDecode t) := by
    intro t ht
    rw [hsplit] at ht
    obtain ⟨s, hs, rfl⟩ := List.mem_map.mp ht
    rw [percentDecode_percentEncode hescape]
    exact (hpairs s hs).2
  obtain ⟨argv, hargv, harray⟩ := processBuff_array hnul behind hclean
  refine ⟨argv, hargv, ?_⟩
  rw [harray, hsplit, List.map_map]
  congr 1
  refine List.map_congr_left fun s hs => ?_
  exact congrArg some (readToken_percentEncode hescape (hpairs s hs).1)

/-- A body is refused for a forbidden character of a decoded token and for nothing
else. All other bodies give their tokens, and what was encoded is what was sent. -/
theorem processBuff_exact (text : Str) (behind : Mem) (htext : 0 ∉ text) :
    (processBuffLoop (text ++ 0 :: behind) = none ↔
      ∃ t ∈ text.splitOnP isSeparator, ∃ c ∈ percentDecode t, isForbidden c = true) ∧
    (∀ argv, processBuffLoop (text ++ 0 :: behind) = some argv →
      argv.array = (text.splitOnP isSeparator).map (fun t => some (readToken t)) ++ [none]) ∧
    ∀ (escape : Byte → Bool) (upper : Bool) (pairs : List (Str × Str)), (∀ b, isSpecial b = true → escape b = true) →
      pairs ≠ [] → (∀ t ∈ pairTokens pairs, 0 ∉ t ∧ Clean t) →
        ∃ argv, processBuffLoop (joinPairs (encodePairs escape upper pairs) ++ 0 :: behind) = some argv ∧
          argv.array = (pairTokens pairs).map some ++ [none] := by
  have hbad : (∃ t ∈ text.splitOnP isSeparator, ∃ c ∈ percentDecode t, isForbidden c = true) ↔
      ∃ t ∈ text.splitOnP isSeparator, ¬ Clean (percentDecode t) := by
    unfold Clean
    simp only [not_forall, Bool.not_eq_false, exists_prop]
  have hrefused : (∃ t ∈ text.splitOnP isSeparator, ¬ Clean (percentDecode t)) →
      processBuff (text ++ 0 :: behind) = none := by
    intro h
    have hnone := decodeenc_refused text htext [] behind h
    rw [List.nil_append, List.length_nil] at hnone
    rw [processBuff_eq htext, hnone]
    rfl
  have haccepted : ¬ (∃ t ∈ text.splitOnP isSeparator, ¬ Clean (percentDecode t)) →
      ∃ argv, processBuff (text ++ 0 :: behind) = some argv ∧
        argv.array = (text.splitOnP isSeparator).map (fun t => some (readToken t)) ++ [none] := by
    intro h
    push Not at h
    exact processBuff_array htext behind h
  rw [processBuffLoop_eq htext, hbad]
  refine ⟨⟨fun hnone => ?_, hrefused⟩, fun argv hargv => ?_, fun escape upper pairs hescape hne hpairs => ?_⟩
  · by_contra hgood
    obtain ⟨argv, hargv, -⟩ := haccepted hgood
    rw [hargv] at hnone
    cases hnone
  · by_cases h : ∃ t ∈ text.splitOnP isSeparator, ¬ Clean (percentDecode t)
    · rw [hrefused h] at hargv
      cases hargv
    · obtain ⟨argv', hargv', harray⟩ := haccepted h
      rw [hargv', Option.some.injEq] at hargv
      rw [← hargv, harray]
  · obtain ⟨argv, hargv, harray⟩ := @processBuff_encoded escape upper hescape pairs hne hpairs behind
    rw [processBuffLoop_eq (nul_notMem_encoded hescape hpairs)]
    exact ⟨argv, hargv, harray⟩

/-- An encoded separator, an encoded NUL and a sign that has only one digit. -/
theorem processBuff_exact_escapes :
    (processBuffLoop (ascii "A%3Db=x%00y&%2541=%4" ++ 0 :: []) = none ↔
      ∃ t ∈ [ascii "A%3Db", ascii "x%00y", ascii "%2541", ascii "%4"], ∃ c ∈ percentDecode t, isForbidden c = true) ∧
    ∀ argv, processBuffLoop (ascii "A%3Db=x%00y&%2541=%4" ++ 0 :: []) = some argv →
      argv.array = [some (ascii "A=b"), some (ascii "x"), some (ascii "%41"), some (ascii "%4"), none] := by
  have hfacts : 0 ∉ ascii "A%3Db=x%00y&%2541=%4" ∧
      (ascii "A%3Db=x%00y&%2541=%4").splitOnP isSeparator =
        [ascii "A%3Db", ascii "x%00y", ascii "%2541", ascii "%4"] ∧
      [ascii "A%3Db", ascii "x%00y", ascii "%2541", ascii "%4"].map (fun t => some (readToken t)) ++ [none] =
        [some (ascii "A=b"), some (ascii "x"), some (ascii "%41"), some (ascii "%4"), none] := by
    decide +kernel
  obtain ⟨hnul, hsplit, harray⟩ := hfacts
  obtain ⟨hnone, hsome, -⟩ := processBuff_exact (ascii "A%3Db=x%00y&%2541=%4") [] hnul
  rw [hsplit] at hnone hsome
  rw [harray] at hsome
  exact ⟨hnone, hsome⟩

/-- A body without keys is read as one empty token. -/
theorem no_pairs_not_read_back :
    ¬ ∀ (escape : Byte → Bool) (upper : Bool) (pairs : List (Str × Str)) (behind : Mem),
      (∀ b, isSpecial b = true → escape b = true) → (∀ t ∈ pairTokens pairs, 0 ∉ t ∧ Clean t) →
        ∃ argv, processBuffLoop (joinPairs (encodePairs escape upper pairs) ++ 0 :: behind) = some argv ∧
          argv.array = (pairTokens pairs).map some ++ [none] := by
  intro h
  obtain ⟨argv, hargv, harray⟩ := h isSpecial true [] [] (fun _ hb => hb) nofun
  have hread : processBuffLoop (joinPairs (encodePairs isSpecial true []) ++ 0 :: []) = some ⟨[0], [0]⟩ := rfl
  rw [hread, Option.some.injEq] at hargv
  rw [← hargv] at harray
  revert harray
  decide

end ModCluster
