import ModCluster.Tokens
import ModCluster.FieldValues

/-!
# What decoding leaves of a body

`process_buff` puts NULs over the separators of a body and decodes every token where
it lies. A token that gets shorter leaves some of its bytes behind its NUL. None of the
bytes, be they of a token or left behind, is one that `decodeenc` refuses.
-/

open CString

namespace ModCluster

/-! ## One token -/

theorem isForbidden_hex : ∀ b : Byte, isXDigit b = true → isForbidden b = false :=
  forall_byte (by decide +kernel)

theorem length_decodeStr_le {s t : Str} {skip : Nat} (h : decodeStr skip s = some t) : t.length ≤ s.length := by
  induction s generalizing skip t with
  | nil =>
    cases h
    exact Nat.le_refl _
  | cons b rest ih =>
    cases skip with
    | succ n =>
      rw [decodeStr] at h
      exact Nat.le_succ_of_le (ih h)
    | zero =>
      rw [decodeStr] at h
      split at h
      · cases h
      · obtain ⟨t', ht', rfl⟩ := Option.map_eq_some_iff.mp h
        exact Nat.succ_le_succ (ih ht')

theorem clean_of_decodeStr {s t : Str} {skip : Nat} (h : decodeStr skip s = some t) : Clean t := by
  induction s generalizing skip t with
  | nil =>
    cases h
    exact nofun
  | cons b rest ih =>
    cases skip with
    | succ n =>
      rw [decodeStr] at h
      exact ih h
    | zero =>
      rw [decodeStr] at h
      split at h
      · cases h
      · rename_i hallowed
        obtain ⟨t', ht', rfl⟩ := Option.map_eq_some_iff.mp h
        exact List.forall_mem_cons.mpr ⟨Bool.eq_false_iff.mpr hallowed, ih ht'⟩

theorem decodeChar_cases (b : Byte) (rest : Str) :
    decodeChar b rest = (b, 0) ∨ b = ch '%' ∧ (decodeChar b rest).2 = 2 ∧
      ∃ x y rest', rest = x :: y :: rest' ∧ isXDigit x = true ∧ isXDigit y = true := by
  unfold decodeChar
  split
  · rename_i x y rest'
    split
    · rename_i hhex
      rw [Bool.and_eq_true, Bool.and_eq_true, beq_iff_eq] at hhex
      exact Or.inr ⟨hhex.1.1, rfl, x, y, rest', rfl, hhex.1.2, hhex.2⟩
    · exact Or.inl rfl
  · exact Or.inl rfl

theorem raw_clean_of_decodeStr {s t : Str} (h : decodeStr 0 s = some t) : Clean s := by
  induction hn : s.length using Nat.strong_induction_on generalizing s t with
  | _ n ih =>
    subst hn
    cases s with
    | nil => exact nofun
    | cons b rest =>
      rw [decodeStr] at h
      split at h
      · cases h
      rename_i hallowed
      obtain ⟨t', ht', rfl⟩ := Option.map_eq_some_iff.mp h
      rcases decodeChar_cases b rest with hsame | ⟨rfl, htwo, x, y, rest', rfl, hx, hy⟩
      · rw [hsame] at ht' hallowed
        exact List.forall_mem_cons.mpr ⟨Bool.eq_false_iff.mpr hallowed, ih rest.length (Nat.lt_succ_self _) ht' rfl⟩
      · rw [htwo] at ht'
        have hrest' : Clean rest' := ih rest'.length (by simp only [List.length_cons]; omega) ht' rfl
        exact List.forall_mem_cons.mpr ⟨by decide, List.forall_mem_cons.mpr ⟨isForbidden_hex x hx,
          List.forall_mem_cons.mpr ⟨isForbidden_hex y hy, hrest'⟩⟩⟩

theorem exists_token (t : List Byte) (rest : Mem) :
    ∃ k sk : List Byte, 0 ∉ k ∧ t ++ 0 :: rest = k ++ 0 :: (sk ++ rest) ∧ k.length + 1 + sk.length = t.length + 1 ∧
      ∀ b ∈ sk, b ∈ t ∨ b = 0 := by
  induction t with
  | nil => exact ⟨[], [], nofun, rfl, rfl, nofun⟩
  | cons b t ih =>
    by_cases hb : b = 0
    · subst hb
      refine ⟨[], t ++ [0], nofun, by simp, by simp; omega, fun b hb => ?_⟩
      rcases List.mem_append.mp hb with hb | hb
      · exact Or.inl (List.mem_cons_of_mem _ hb)
      · exact Or.inr (List.mem_singleton.mp hb)
    · obtain ⟨k, sk, hk, heq, hlen, hsk⟩ := ih
      refine ⟨b :: k, sk, ?_, ?_, ?_, fun c hc => ?_⟩
      · rw [List.mem_cons, not_or]
        exact ⟨fun h => hb h.symm, hk⟩
      · rw [List.cons_append, heq, List.cons_append]
      · rw [List.length_cons, List.length_cons]
        omega
      · rcases hsk c hc with h | h
        · exact Or.inl (List.mem_cons_of_mem _ h)
        · exact Or.inr h

/-! ## A whole body -/

/-- The memory from offset `pos` on holds the tokens, each with its NUL and what its
decoding has left behind that. -/
inductive TokensAt : (pos : Nat) → List Str → Mem → List Nat → Prop
  | nil {pos : Nat} (behind : Mem) : TokensAt pos [] behind []
  | cons {pos : Nat} {k : Str} {sk : Mem} {tokens : List Str} {mem : Mem} {ptr : List Nat} (hk : 0 ∉ k)
      (h : TokensAt (pos + (k.length + 1 + sk.length)) tokens mem ptr) :
      TokensAt pos (k :: tokens) (k ++ 0 :: (sk ++ mem)) (pos :: ptr)

theorem write_token {r : Str} {t : List Byte} (hlen : t.length ≤ r.length) (done rest : Mem) :
    write (done ++ (r ++ 0 :: rest)) done.length (t ++ [0]) =
      done ++ (t ++ 0 :: ((r ++ [0]).drop (t.length + 1) ++ rest)) := by
  have hat := write_append done (r ++ 0 :: rest) 0 (t ++ [0])
  rw [Nat.add_zero] at hat
  have hsplit : r ++ 0 :: rest = (r ++ [0]) ++ rest := by simp
  have hdrop : t.length + 1 ≤ (r ++ [0]).length := by
    rw [List.length_append]
    exact Nat.succ_le_succ hlen
  rw [hat, hsplit]
  unfold write
  rw [List.take_zero, List.nil_append, Nat.zero_add, List.length_append, List.length_singleton,
    List.drop_append_of_le_length hdrop, List.append_assoc, List.singleton_append]

theorem decodeenc_token {r : Str} (hr : 0 ∉ r) {done rest m : Mem} {ptr : List Nat}
    (h : decodeenc (done ++ (r ++ 0 :: rest)) (done.length :: ptr) = some m) :
    ∃ k sk : List Byte, 0 ∉ k ∧ k.length + 1 + sk.length = r.length + 1 ∧
      (∀ b ∈ k ++ 0 :: sk, isForbidden b = false) ∧
      decodeenc ((done ++ (k ++ 0 :: sk)) ++ rest) ptr = some m := by
  rw [decodeenc, strAt_token hr] at h
  split at h
  · rename_i t ht
    have hlen := length_decodeStr_le ht
    rw [write_token hlen] at h
    obtain ⟨k, sk, hk, heq, hks, hsk⟩ := exists_token t ((r ++ [0]).drop (t.length + 1))
    have hraw := raw_clean_of_decodeStr ht
    have htc := clean_of_decodeStr ht
    have hleft : ∀ b ∈ (r ++ [0]).drop (t.length + 1), isForbidden b = false := by
      intro b hb
      rcases List.mem_append.mp (List.mem_of_mem_drop hb) with hb | hb
      · exact hraw b hb
      · rw [List.mem_singleton.mp hb]
        decide
    refine ⟨k, sk ++ (r ++ [0]).drop (t.length + 1), hk, ?_, ?_, ?_⟩
    · rw [List.length_append, List.length_drop, List.length_append, List.length_singleton]
      omega
    · intro b hb
      rw [← heq] at hb
      rcases List.mem_append.mp hb with hb | hb
      · exact htc b hb
      · rcases List.mem_cons.mp hb with rfl | hb
        · decide
        · exact hleft b hb
    · rw [← heq]
      simpa using h
  · cases h

theorem exists_first_token (text : Str) :
    ∃ r : Str, (∀ b ∈ r, isSeparator b = false) ∧
      (text = r ∨ ∃ sep rest, isSeparator sep = true ∧ text = r ++ sep :: rest) := by
  induction text with
  | nil => exact ⟨[], nofun, Or.inl rfl⟩
  | cons b text ih =>
    cases hb : isSeparator b with
    | true => exact ⟨[], nofun, Or.inr ⟨b, text, hb, rfl⟩⟩
    | false =>
      obtain ⟨r, hr, heq⟩ := ih
      refine ⟨b :: r, List.forall_mem_cons.mpr ⟨hb, hr⟩, ?_⟩
      rcases heq with rfl | ⟨sep, rest, hsep, rfl⟩
      · exact Or.inl rfl
      · exact Or.inr ⟨sep, rest, hsep, rfl⟩

theorem decodeenc_tokensAt {behind : Mem} (text : Str) (htext : 0 ∉ text) (done : Mem) {m : Mem}
    (h : decodeenc (done ++ (text.map nulSeparator ++ 0 :: behind)) (done.length :: tokenStarts done.length text) =
      some m) :
    ∃ tokens mem, m = done ++ mem ∧ TokensAt done.length tokens mem (done.length :: tokenStarts done.length text) ∧
      ∀ b ∈ mem, isForbidden b = false ∨ b ∈ behind := by
  induction hn : text.length using Nat.strong_induction_on generalizing text done with
  | _ n ih =>
    subst hn
    obtain ⟨r, hr, rfl | ⟨sep, rest, hsep, rfl⟩⟩ := exists_first_token text
    · rw [map_nulSeparator hr, tokenStarts_last hr] at h
      obtain ⟨k, sk, hk, hlen, hclean, hrest⟩ := decodeenc_token htext h
      cases hrest
      rw [tokenStarts_last hr]
      refine ⟨[k], k ++ 0 :: (sk ++ behind), by simp, .cons hk (.nil behind), fun b hb => ?_⟩
      have hsplit : k ++ 0 :: (sk ++ behind) = (k ++ 0 :: sk) ++ behind := by simp
      rw [hsplit] at hb
      rcases List.mem_append.mp hb with hb | hb
      · exact Or.inl (hclean b hb)
      · exact Or.inr hb
    · have hr0 : 0 ∉ r := fun hmem => htext (List.mem_append_left _ hmem)
      have hrest0 : 0 ∉ rest := fun hmem => htext (List.mem_append_right _ (List.mem_cons_of_mem _ hmem))
      have hnul : nulSeparator sep = 0 := if_pos hsep
      have hmap : (r ++ sep :: rest).map nulSeparator ++ 0 :: behind =
          r ++ 0 :: (rest.map nulSeparator ++ 0 :: behind) := by
        rw [List.map_append, List.map_cons, map_nulSeparator hr, hnul, List.append_assoc, List.cons_append]
      rw [hmap, tokenStarts_token hr hsep] at h
      obtain ⟨k, sk, hk, hlen, hclean, hrest⟩ := decodeenc_token hr0 h
      have hpos : done.length + r.length + 1 = (done ++ (k ++ 0 :: sk)).length := by
        rw [List.length_append, List.length_append, List.length_cons]
        omega
      rw [hpos] at hrest
      obtain ⟨tokens, mem, hm, htokens, hmem⟩ := ih rest.length (by simp; omega) rest hrest0 _ hrest rfl
      have hat : (done ++ (k ++ 0 :: sk)).length = done.length + (k.length + 1 + sk.length) := by
        rw [List.length_append, List.length_append, List.length_cons]
        omega
      rw [tokenStarts_token hr hsep, hpos]
      refine ⟨k :: tokens, k ++ 0 :: (sk ++ mem), by rw [hm]; simp, .cons hk ?_, fun b hb => ?_⟩
      · rw [← hat]
        exact htokens
      have hsplit : k ++ 0 :: (sk ++ mem) = (k ++ 0 :: sk) ++ mem := by simp
      rw [hsplit] at hb
      rcases List.mem_append.mp hb with hb | hb
      · exact Or.inl (hclean b hb)
      · exact hmem b hb

theorem processBuff_tokensAt {text : Str} (htext : 0 ∉ text) {behind : Mem} {argv : Argv}
    (h : processBuff (text ++ 0 :: behind) = some argv) :
    (∃ tokens, TokensAt 0 tokens argv.mem argv.ptr) ∧ ∀ b ∈ argv.mem, isForbidden b = false ∨ b ∈ behind := by
  unfold processBuff at h
  simp only [strAt_zero htext] at h
  obtain ⟨m, hm, rfl⟩ := Option.map_eq_some_iff.mp h
  have hwrite : write (text ++ 0 :: behind) 0 (text.map nulSeparator) = text.map nulSeparator ++ 0 :: behind := by
    unfold write
    rw [List.take_zero, List.nil_append, Nat.zero_add, List.length_map, List.drop_left]
  have hm' : decodeenc (write (text ++ 0 :: behind) 0 (text.map nulSeparator)) (0 :: tokenStarts 0 text) = some m := hm
  rw [hwrite] at hm'
  obtain ⟨tokens, mem, rfl, htokens, hmem⟩ := decodeenc_tokensAt text htext [] hm'
  exact ⟨⟨tokens, htokens⟩, hmem⟩

theorem TokensAt.layout {pos : Nat} {tokens : List Str} {mem : Mem} {ptr : List Nat} (h : TokensAt pos tokens mem ptr)
    (heven : ptr.length % 2 = 0) : ∃ pairs, Layout pos pairs mem ptr := by
  induction hn : ptr.length using Nat.strong_induction_on generalizing pos tokens mem ptr with
  | _ n ih =>
    subst hn
    cases h with
    | nil => exact ⟨[], .nil mem⟩
    | cons hk h =>
      cases h with
      | nil => exact absurd heven (by simp)
      | cons hv h =>
        simp only [List.length_cons] at heven ih
        obtain ⟨pairs, hpairs⟩ := ih _ (by omega) h (by omega) rfl
        exact ⟨_, .cons hk hv hpairs⟩

/-- Every body of keys and values that is decoded is read for them. -/
theorem processBuff_laysOut {text : Str} (htext : 0 ∉ text) {behind : Mem} {argv : Argv}
    (h : processBuff (text ++ 0 :: behind) = some argv) (heven : argv.ptr.length % 2 = 0) :
    ∃ pairs, argv.LaysOut pairs := by
  obtain ⟨⟨tokens, htokens⟩, -⟩ := processBuff_tokensAt htext h
  exact htokens.layout heven

theorem layout_tokens {pairs : List (Str × Str)} (h : ∀ p ∈ pairs, 0 ∉ p.1 ∧ 0 ∉ p.2) (pos : Nat) :
    Layout pos pairs (tokenMem (pairTokens pairs)) (tokenOffsets pos (pairTokens pairs)) := by
  induction pairs generalizing pos with
  | nil => exact .nil []
  | cons p pairs ih =>
    obtain ⟨hp, hrest⟩ := List.forall_mem_cons.mp h
    have htokens : pairTokens (p :: pairs) = p.1 :: p.2 :: pairTokens pairs := rfl
    rw [htokens, tokenMem_cons, tokenMem_cons]
    exact @Layout.cons pos p.1 p.2 [] [] pairs _ _ hp.1 hp.2 (ih hrest _)

end ModCluster
