import ModCluster.Message
import Mathlib.Data.List.TakeWhile

/-!
# Receiving a message

How `manager_handler` reads the body of an MCMP request: chunk after chunk into one
buffer, until the body ends or the buffer is full. The NUL behind the body has no
room of its own in that buffer.
-/

open CString

namespace ModCluster

/-! ## The buffer -/

def MAXMESSSIZE : Int := 1024

/-- `cmd_manager_maxmesssize`. With a directive that it refuses httpd does not start. -/
def cmdManagerMaxmesssize (word : Str) : Option Int :=
  let maxmesssize := atoi word
  if maxmesssize < MAXMESSSIZE then none else some maxmesssize

structure BufferConf where
  maxmesssize : Int
  maxhost : UInt32
  maxcontext : UInt32
  /-- Not configured, or by the directive. -/
  accepted : maxmesssize = 0 ∨ ∃ word, cmdManagerMaxmesssize word = some maxmesssize

/-- The products are those of `unsigned`, the sum is one of `apr_size_t`. -/
def calculatedSize (httpd : Httpd) (conf : BufferConf) : Nat :=
  9 + httpd.routeSize + (conf.maxhost * HOSTALIASZ.toUInt32).toNat + 7 +
    (conf.maxcontext * CONTEXTSZ.toUInt32).toNat + 8

def maxbufsiz (httpd : Httpd) (conf : BufferConf) : Nat :=
  let size := if conf.maxmesssize ≠ 0 then conf.maxmesssize.toNat else calculatedSize httpd conf
  max size MAXMESSSIZE.toNat

/-! ## The loop -/

inductive Ending where
  | eos
  | error
deriving DecidableEq

/-- A body in the pieces in which the input filters hand it out, and how it ends. -/
structure Input where
  chunks : List Str
  ending : Ending

def Input.body (input : Input) : Str := input.chunks.flatten

structure Reading where
  buff : Mem
  bufsiz : Nat
  /-- The indexes of `buff` that were written. -/
  writes : List Nat
  failed : Bool

/-- `apr_brigade_flatten`. -/
def Reading.flatten (r : Reading) (data : Str) : Reading where
  buff := write r.buff r.bufsiz data
  bufsiz := r.bufsiz + data.length
  writes := r.writes ++ List.range' r.bufsiz data.length
  failed := r.failed

/-- The reads. No more than what fits is asked for. What is left of a chunk then is
not read: the buffer is full. -/
def readBody (max : Nat) (ending : Ending) : List Str → Reading → Reading
  | [], r => { r with failed := decide (ending = .error) }
  | chunk :: rest, r =>
    let data := chunk.take (max - r.bufsiz)
    if max ≤ r.bufsiz + data.length ∨ data.length = 0 then r.flatten data
    else readBody max ending rest (r.flatten data)

structure Received where
  writes : List Nat
  /-- What `process_buff` is called with. -/
  message : Except McmpError Mem

/-- The terminator goes behind the last byte that was read. -/
def Reading.finish (r : Reading) (method : Str) : Received :=
  if r.failed then ⟨r.writes, .error (.sreader method)⟩
  else ⟨r.writes ++ [r.bufsiz], .ok (write r.buff r.bufsiz [0])⟩

def receive (httpd : Httpd) (conf : BufferConf) (method : Str) (input : Input) : Received :=
  let max := maxbufsiz httpd conf
  let r := readBody max input.ending input.chunks ⟨List.replicate max 0, 0, [], false⟩
  r.finish method

/-- The tokens of the message, or the refusal of it. -/
def receiveArgv (httpd : Httpd) (conf : BufferConf) (method : Str) (input : Input) : Except McmpError Argv :=
  match (receive httpd conf method input).message with
  | .error e => .error e
  | .ok buff =>
    match processBuff buff with
    | some argv => .ok argv
    | none => .error .smespar

/-! ## What is read -/

/-- The buffer after `text` was read into it, whatever the pieces. -/
def Reading.of (max : Nat) (text : Str) : Reading where
  buff := text ++ List.replicate (max - text.length) 0
  bufsiz := text.length
  writes := List.range text.length
  failed := false

/-- An empty brigade ends the loop as the end of the body does. -/
def Input.beforeGap (input : Input) : List Str := input.chunks.takeWhile (· ≠ [])

section Reads

variable {max : Nat} {ending : Ending} {chunks : List Str} {p q : Str}

theorem Reading.flatten_of (h : p.length + q.length ≤ max) : (of max p).flatten q = of max (p ++ q) := by
  have hbuff : write (p ++ List.replicate (max - p.length) 0) p.length q =
      p ++ q ++ List.replicate (max - (p ++ q).length) 0 := by
    unfold write
    rw [List.take_left, List.drop_append, List.drop_eq_nil_of_le (Nat.le_add_right _ _), List.drop_replicate,
      List.length_append, List.nil_append]
    congr 2
    omega
  have hwrites : List.range p.length ++ List.range' p.length q.length = List.range (p ++ q).length := by
    rw [List.range_eq_range', List.range_eq_range', List.length_append, ← List.range'_append_1, Nat.zero_add]
  unfold flatten of
  rw [hbuff, hwrites, List.length_append]

theorem readBody_cons {chunk : Str} {rest : List Str} (hne : chunk ≠ []) (hp : p.length + chunk.length < max) :
    readBody max ending (chunk :: rest) (.of max p) = readBody max ending rest (.of max (p ++ chunk)) := by
  have hdata : chunk.take (max - p.length) = chunk := List.take_of_length_le (by omega)
  have hpos := List.length_pos_iff.2 hne
  have hgo : ¬ (max ≤ p.length + (chunk.take (max - p.length)).length ∨
      (chunk.take (max - p.length)).length = 0) := by
    rw [hdata]
    omega
  rw [readBody]
  refine (if_neg hgo).trans ?_
  show readBody max ending rest ((Reading.of max p).flatten (chunk.take (max - p.length))) = _
  rw [hdata, Reading.flatten_of (Nat.le_of_lt hp)]

theorem readBody_fits (h : p.length + (chunks.takeWhile (· ≠ [])).flatten.length < max) :
    readBody max ending chunks (.of max p) =
      { Reading.of max (p ++ (chunks.takeWhile (· ≠ [])).flatten) with
        failed := decide ([] ∉ chunks ∧ ending = .error) } := by
  induction chunks generalizing p with
  | nil => simp [readBody]
  | cons chunk rest ih =>
    by_cases hne : chunk = []
    · subst hne
      simp [readBody, Reading.of, Reading.flatten, write]
    · rw [List.takeWhile_cons_of_pos (by simpa using hne), List.flatten_cons, List.length_append] at h
      rw [readBody_cons hne (by omega), ih (by rw [List.length_append]; omega),
        List.takeWhile_cons_of_pos (by simpa using hne), List.flatten_cons, List.append_assoc]
      simp [Ne.symm hne]

theorem readBody_full (hp : p.length < max) (h : max ≤ p.length + (chunks.takeWhile (· ≠ [])).flatten.length) :
    readBody max ending chunks (.of max p) =
      .of max ((p ++ (chunks.takeWhile (· ≠ [])).flatten).take max) := by
  induction chunks generalizing p with
  | nil =>
    simp only [List.takeWhile_nil, List.flatten_nil, List.length_nil] at h
    omega
  | cons chunk rest ih =>
    by_cases hne : chunk = []
    · subst hne
      simp at h
      omega
    rw [List.takeWhile_cons_of_pos (by simpa using hne), List.flatten_cons, List.length_append] at h
    rw [List.takeWhile_cons_of_pos (by simpa using hne), List.flatten_cons, ← List.append_assoc]
    by_cases hlast : p.length + chunk.length < max
    · have hp' : (p ++ chunk).length < max := by
        rw [List.length_append]
        exact hlast
      rw [readBody_cons hne hlast]
      exact ih hp' (by rw [List.length_append]; omega)
    · have hlen : (chunk.take (max - p.length)).length = max - p.length := List.length_take_of_le (by omega)
      unfold readBody
      refine (if_pos (Or.inl ?_)).trans ?_
      · show max ≤ p.length + (chunk.take (max - p.length)).length
        omega
      · show (Reading.of max p).flatten (chunk.take (max - p.length)) = _
        rw [Reading.flatten_of (by omega), List.take_append_of_le_length (by rw [List.length_append]; omega),
          List.take_append, List.take_of_length_le (Nat.le_of_lt hp)]

theorem strAt_text (tail : Mem) : strAt (p ++ 0 :: tail) 0 = p.takeWhile (· != 0) := by
  unfold strAt
  rw [List.drop_zero, List.takeWhile_append]
  split
  · rename_i hall
    rw [List.takeWhile_cons_of_neg (by simp), List.append_nil]
    exact ((List.takeWhile_prefix _).eq_of_length hall).symm
  · rfl

theorem write_terminator : strAt (write (Reading.of max p).buff p.length [0]) 0 = p.takeWhile (· != 0) := by
  have hwrite : write (Reading.of max p).buff p.length [0] =
      p ++ 0 :: (Reading.of max p).buff.drop (p.length + 1) := by
    show List.take _ (p ++ List.replicate _ 0) ++ [0] ++ _ = _
    rw [List.take_left, List.append_assoc]
    rfl
  rw [hwrite, strAt_text]

theorem takeWhile_nul_eq {text : Str} : text.takeWhile (· != 0) = text ↔ 0 ∉ text := by
  rw [List.takeWhile_eq_self_iff]
  refine ⟨fun h hmem => absurd (h 0 hmem) (by decide), fun h b hb => ?_⟩
  rw [bne_iff_ne]
  rintro rfl
  exact h hb

end Reads

/-! ## Whole or refused -/

/-- An empty brigade ends the loop as the end of the body does. Nothing may come behind
it, neither bytes nor an error. A NUL ends the message too. -/
def Input.Steady (input : Input) : Prop :=
  match input.ending with
  | .eos => (input.chunks.dropWhile (· ≠ [])).flatten = [] ∧ 0 ∉ input.body
  | .error => [] ∉ input.chunks

/-- Every write is within the buffer, and what is processed is a body that ended. -/
def Received.Complete (max : Nat) (input : Input) (r : Received) : Prop :=
  (∀ k ∈ r.writes, k < max) ∧
    ∀ buff, r.message = .ok buff → input.ending = .eos ∧ strAt buff 0 = input.body

section Receive

variable {httpd : Httpd} {conf : BufferConf} {method : Str} {input : Input}

theorem maxbufsiz_pos : 0 < maxbufsiz httpd conf :=
  Nat.lt_of_lt_of_le (by decide : 0 < MAXMESSSIZE.toNat) (Nat.le_max_right _ _)

theorem receive_eq : receive httpd conf method input =
    (readBody (maxbufsiz httpd conf) input.ending input.chunks (.of (maxbufsiz httpd conf) [])).finish method := rfl

theorem receive_full (h : maxbufsiz httpd conf ≤ input.beforeGap.flatten.length) :
    maxbufsiz httpd conf ∈ (receive httpd conf method input).writes := by
  have hlen : (input.beforeGap.flatten.take (maxbufsiz httpd conf)).length = maxbufsiz httpd conf :=
    List.length_take_of_le h
  rw [receive_eq, readBody_full maxbufsiz_pos ((Nat.zero_add _).symm ▸ h)]
  exact List.mem_append_right _ (List.mem_singleton.2 hlen.symm)

theorem receive_fits (h : input.beforeGap.flatten.length < maxbufsiz httpd conf) :
    receive httpd conf method input =
      if [] ∉ input.chunks ∧ input.ending = .error then
        ⟨List.range input.beforeGap.flatten.length, .error (.sreader method)⟩
      else (Reading.of (maxbufsiz httpd conf) input.beforeGap.flatten).finish method := by
  rw [receive_eq, readBody_fits ((Nat.zero_add _).symm ▸ h)]
  by_cases hfail : [] ∉ input.chunks ∧ input.ending = .error
  · rw [if_pos hfail]
    exact if_pos (decide_eq_true hfail)
  · rw [if_neg hfail, decide_eq_false hfail]
    rfl

theorem finish_complete {max : Nat} {text : Str} (h : text.length < max) :
    ((Reading.of max text).finish method).Complete max input ↔
      input.ending = .eos ∧ text.takeWhile (· != 0) = input.body := by
  refine ⟨fun hc => ?_, fun hc => ⟨fun k hk => ?_, fun buff hbuff => ?_⟩⟩
  · obtain ⟨heos, htext⟩ := hc.2 _ rfl
    exact ⟨heos, write_terminator.symm.trans htext⟩
  · rcases List.mem_append.1 hk with hk | hk
    · exact Nat.lt_trans (List.mem_range.1 hk) h
    · rw [List.mem_singleton.1 hk]
      exact h
  · cases hbuff
    exact ⟨hc.1, write_terminator.trans hc.2⟩

theorem body_split : input.body = input.beforeGap.flatten ++ (input.chunks.dropWhile (· ≠ [])).flatten := by
  unfold Input.body Input.beforeGap
  rw [← List.flatten_append, List.takeWhile_append_dropWhile]

theorem read_whole_iff :
    input.beforeGap.flatten.takeWhile (· != 0) = input.body ↔
      (input.chunks.dropWhile (· ≠ [])).flatten = [] ∧ 0 ∉ input.body := by
  rw [body_split]
  refine ⟨fun h => ?_, fun ⟨hrest, hnul⟩ => ?_⟩
  · have hle := (List.takeWhile_prefix (· != 0) : _ <+: input.beforeGap.flatten).length_le
    have hrest : (input.chunks.dropWhile (· ≠ [])).flatten = [] := by
      rw [h, List.length_append] at hle
      exact List.length_eq_zero_iff.1 (by omega)
    rw [hrest, List.append_nil] at h ⊢
    exact ⟨rfl, takeWhile_nul_eq.1 h⟩
  · rw [hrest, List.append_nil] at hnul ⊢
    exact takeWhile_nul_eq.2 hnul

end Receive

/-- The reads stay in the buffer and nothing is cut off, if and only if the body is
shorter than the buffer, has no NUL, and nothing follows an empty brigade. -/
theorem receive_complete_iff (httpd : Httpd) (conf : BufferConf) (method : Str) (input : Input) :
    (receive httpd conf method input).Complete (maxbufsiz httpd conf) input ↔
      input.body.length < maxbufsiz httpd conf ∧ input.Steady := by
  by_cases hfits : input.beforeGap.flatten.length < maxbufsiz httpd conf
  swap
  · -- The terminator is written at the index `maxbufsiz`.
    have hle : input.beforeGap.flatten.length ≤ input.body.length := by
      rw [body_split, List.length_append]
      exact Nat.le_add_right _ _
    refine iff_of_false (fun h => ?_) (fun h => hfits (Nat.lt_of_le_of_lt hle h.1))
    exact Nat.lt_irrefl _ (h.1 _ (receive_full (Nat.le_of_not_lt hfits)))
  rw [receive_fits hfits]
  unfold Input.Steady
  cases hend : input.ending with
  | eos =>
    rw [if_neg (fun h => nomatch h.2), finish_complete hfits, read_whole_iff]
    refine ⟨fun h => ⟨?_, h.2⟩, fun h => ⟨hend, h.2⟩⟩
    rw [body_split, h.2.1, List.append_nil]
    exact hfits
  | error =>
    by_cases hgap : [] ∈ input.chunks
    · rw [if_neg (fun h => h.1 hgap), finish_complete hfits, hend]
      exact iff_of_false (fun h => nomatch h.1) (fun h => h.2 hgap)
    · rw [if_pos ⟨hgap, rfl⟩]
      have hall : input.beforeGap = input.chunks := by
        unfold Input.beforeGap
        rw [List.takeWhile_eq_self_iff]
        intro c hc
        have hne : c ≠ [] := by
          rintro rfl
          exact hgap hc
        exact decide_eq_true hne
      refine iff_of_true ⟨fun k hk => Nat.lt_trans (List.mem_range.1 hk) hfits, nofun⟩ ⟨?_, hgap⟩
      rw [Input.body, ← hall]
      exact hfits

def smallestBuffer : BufferConf where
  maxmesssize := 1024
  maxhost := 20
  maxcontext := 100
  accepted := Or.inr ⟨ascii "1024", by decide +kernel⟩

/-- A body that fills the buffer. Its NUL is written behind the buffer. -/
theorem fullBuffer_overrun :
    ¬ (receive plainHttpd smallestBuffer (ascii "CONFIG") ⟨[List.replicate 1024 (ch 'a')], .eos⟩).Complete
      (maxbufsiz plainHttpd smallestBuffer) ⟨[List.replicate 1024 (ch 'a')], .eos⟩ := by
  intro h
  have hwrite : maxbufsiz plainHttpd smallestBuffer ∈
      (receive plainHttpd smallestBuffer (ascii "CONFIG") ⟨[List.replicate 1024 (ch 'a')], .eos⟩).writes := by
    decide +kernel
  exact Nat.lt_irrefl _ (h.1 _ hwrite)

end ModCluster
