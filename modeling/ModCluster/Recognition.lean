import ModCluster.Alphabet
import ModCluster.PairCounts
import ModCluster.Election

/-!
# Workers and their nodes

A worker keeps the scheme, the host and the port of the URL it was made from, as httpd has
parsed them, and a node keeps what its CONFIG said. `read_node_worker` compares the two.
-/

open CString Slotmem Slotmem.Table

namespace ModCluster

/-! ## Plain spellings -/

def isAlpha (b : Byte) : Bool := isUpper b || (97 ≤ b && b ≤ 122)

def isSchemeByte (b : Byte) : Bool := isAlpha b || isDigit b || b == ch '+' || b == ch '-' || b == ch '.'

/-- What neither ends the host of a URL nor makes it a user. -/
def isHostByte (b : Byte) : Bool := b != ch '/' && b != ch '?' && b != ch '#' && b != ch '@'

/-- A URL scheme. -/
def PlainScheme (type : Str) : Prop := type.head?.any isAlpha = true ∧ ∀ b ∈ type, isSchemeByte b = true

/-- A name or an IPv4 address, or an IPv6 address in brackets. A worker has an array of 64
bytes for it. -/
inductive PlainHost : Str → Prop where
  | name (s : Str) (hopen : s.head? ≠ some (ch '[')) (hs : ∀ b ∈ s, isHostByte b = true ∧ b ≠ ch ':')
      (hlen : s.length < 64) : PlainHost s
  | address (s : Str) (hs : ∀ b ∈ s, isHostByte b = true ∧ b ≠ ch ']') (hlen : s.length < 64) :
      PlainHost (ch '[' :: (s ++ [ch ']']))

/-- A host without the brackets of an IPv6 address. -/
def unbracket : Str → Str
  | [] => []
  | b :: rest => if b = ch '[' then rest.dropLast else b :: rest

/-- What the worker keeps of the URL it was made from. -/
def WorkerShared.SameUrl (s shared : WorkerShared) : Prop :=
  s.scheme = shared.scheme ∧ s.hostname = shared.hostname ∧ s.port = shared.port

instance (s shared : WorkerShared) : Decidable (s.SameUrl shared) :=
  inferInstanceAs (Decidable (_ ∧ _ ∧ _))

/-- What httpd does with a URL. A port of 0 is none. -/
structure UrlRules (httpd : Httpd) : Prop where
  /-- A worker has a URL scheme, in lower case, and its port is an `apr_port_t`. -/
  scheme : ∀ url area, httpd.defineWorker url = some area →
    PlainScheme area.scheme ∧ lower area.scheme = area.scheme
  port : ∀ url area, httpd.defineWorker url = some area → area.port < 65536
  /-- Its host is what stood before a port, a path, a query and a fragment, and behind a
  user, and fits its array. -/
  hostname : ∀ url area, httpd.defineWorker url = some area →
    (∀ b ∈ area.hostname, isHostByte b = true) ∧ area.hostname.length < 64
  colon : ∀ type host port area, PlainScheme type → host.head? ≠ some (ch '[') → ch '@' ∉ host →
    port = [] ∨ (∃ p, port = ascii ":" ++ decimal p) →
    httpd.defineWorker (type ++ ascii "://" ++ host ++ port) = some area → ch ':' ∉ area.hostname
  /-- `apr_uri_parse` of a URL with a port. -/
  parse : ∀ type host p, PlainScheme type → PlainHost host → p < 65536 →
    httpd.uriParse (type ++ ascii "://" ++ host ++ ascii ":" ++ decimal p) = some ⟨some type, p⟩
  /-- `ap_proxy_define_worker` of a URL with a port, and of one without. -/
  define : ∀ type host p area, PlainScheme type → PlainHost host → p < 65536 →
    httpd.defineWorker (type ++ ascii "://" ++ host ++ ascii ":" ++ decimal p) = some area →
    area.scheme = lower type ∧ area.hostname = lower (unbracket host) ∧
      area.port = if p = 0 then httpd.portOfScheme type else p
  defineDefault : ∀ type host area, PlainScheme type → PlainHost host →
    httpd.defineWorker (type ++ ascii "://" ++ host) = some area →
    area.scheme = lower type ∧ area.hostname = lower (unbracket host) ∧ area.port = httpd.portOfScheme type
  /-- `ap_proxy_initialize_worker` leaves the three alone. -/
  keeps : ∀ s, (httpd.initializeWorker s).1.SameUrl s

/-! ## What is compared -/

/-- `create_worker` makes a worker for the node of slot `i` and puts its name into the slot. -/
structure Builds (httpd : Httpd) (now : Int) (ts : Tables) (b : ProxyBalancer) (i : Nat) (url : Str)
    (shared : WorkerShared) : Prop where
  inUse : InUse ts i
  names : createWorkerBuildName httpd (ts.nodes.peek i).mess = some url
  fresh : (httpd.getWorker (b.workers.map (·.area ts)) url).bind (fun j =>
    (b.workers[j]?).map fun w => (j, w)) = none
  defines : httpd.defineWorker url = some shared
  /-- An area with the worker's name was arranged for its URL. -/
  named : (ts.nodes.peek i).stat.name = shared.name → (ts.nodes.peek i).stat.SameUrl shared
  succeeds : (httpd.initializeWorker (if (ts.nodes.peek i).stat.name ≠ shared.name then
    arrangeSharedMem now (ts.nodes.peek i).mess shared (ts.nodes.peek i).stat else (ts.nodes.peek i).stat)).2 = true

/-- The Type is in lower case, and the Port is written as httpd writes it. -/
def Spelled (m : Nodemess) : Prop := lower m.type = m.type ∧ ∃ p < 65536, m.port = decimal p

/-- `compare_hostname` takes the host for that of the node: of a Host that starts with a
bracket it compares no more than stands between the brackets. -/
def TakenFor (host node : Str) : Prop :=
  match node with
  | [] => host = []
  | b :: rest =>
    if b = ch '[' then
      if rest = [] then host = [] else lower rest.dropLast <+: lower host
    else lower host = lower node

section Compare

variable {httpd : Httpd} {now : Int} {ts : Tables} {b : ProxyBalancer} {i j : Nat} {url host node : Str}
  {shared : WorkerShared}

theorem blankArea_sameUrl (s : WorkerShared) : (blankArea s).SameUrl s := by
  unfold blankArea
  split <;> exact ⟨rfl, rfl, rfl⟩

theorem pokeStat_stat {f : WorkerShared → WorkerShared} (hi : i < ts.nodes.size) :
    ((pokeStat ts i f).nodes.peek i).stat = f (ts.nodes.peek i).stat := by
  rw [pokeStat, peek_poke_self _ hi]

theorem size_pokeStat {f : WorkerShared → WorkerShared} : (pokeStat ts i f).nodes.size = ts.nodes.size := by
  simp [pokeStat]

theorem Builds.arranged (h : Builds httpd now ts b i url shared) :
    (if (ts.nodes.peek i).stat.name ≠ shared.name then
      arrangeSharedMem now (ts.nodes.peek i).mess shared (ts.nodes.peek i).stat
    else (ts.nodes.peek i).stat).SameUrl shared := by
  split
  · exact ⟨rfl, rfl, rfl⟩
  · rename_i hname
    exact h.named (not_not.1 hname)

theorem WorkerShared.SameUrl.trans {s s' shared : WorkerShared} (h : s.SameUrl s') (h' : s'.SameUrl shared) :
    s.SameUrl shared :=
  ⟨h.1.trans h'.1, h.2.1.trans h'.2.1, h.2.2.trans h'.2.2⟩

theorem Builds.area (hrules : UrlRules httpd) (h : Builds httpd now ts b i url shared) :
    ((createWorker httpd now ts b (ts.nodes.peek i).mess i).1.nodes.peek i).stat.SameUrl shared := by
  have hi := h.inUse.lt
  obtain ⟨s, hs⟩ : ∃ s, (if (ts.nodes.peek i).stat.name ≠ shared.name then
      arrangeSharedMem now (ts.nodes.peek i).mess shared (ts.nodes.peek i).stat
    else (ts.nodes.peek i).stat) = s := ⟨_, rfl⟩
  have harranged := h.arranged
  have hsucceeds := h.succeeds
  rw [hs] at harranged hsucceeds
  -- The slot holds the arranged area in both cases of `renamed`.
  obtain ⟨ts', hts', hsize, hstat⟩ : ∃ ts', (if (ts.nodes.peek i).stat.name ≠ shared.name then
      pokeStat ts i (arrangeSharedMem now (ts.nodes.peek i).mess shared) else ts) = ts' ∧
      i < ts'.nodes.size ∧ (ts'.nodes.peek i).stat = s := by
    refine ⟨_, rfl, ?_⟩
    by_cases hname : (ts.nodes.peek i).stat.name ≠ shared.name
    · rw [if_pos hname] at hs ⊢
      exact ⟨by simpa [size_pokeStat] using hi, by rw [pokeStat_stat hi, hs]⟩
    · rw [if_neg hname] at hs ⊢
      exact ⟨hi, hs⟩
  have harea : ((createWorker httpd now ts b (ts.nodes.peek i).mess i).1.nodes.peek i).stat =
      blankArea (setIndex (ts.nodes.peek i).mess.id (httpd.initializeWorker s).1) := by
    unfold createWorker
    simp only [h.names, h.fresh, h.defines]
    unfold createWorkerNew
    simp only [hts', hstat, if_pos hsucceeds]
    rw [pokeStat_stat (by simpa [size_pokeStat] using hsize), pokeStat_stat hsize, hstat]
    rfl
  rw [harea]
  apply (blankArea_sameUrl _).trans
  exact (hrules.keeps s).trans harranged

theorem plainBytes : ∀ b,
    (isHostByte (toLower b) = isHostByte b ∧ isSchemeByte (toLower b) = isSchemeByte b ∧
        isAlpha (toLower b) = isAlpha b) ∧
      (toLower b = ch ':' ↔ b = ch ':') ∧ (toLower b = ch '[' ↔ b = ch '[') ∧ (toLower b = ch ']' ↔ b = ch ']') ∧
      (isSchemeByte b = true → b ≠ ch ':') :=
  forall_byte (by decide +kernel)

theorem isHostByte_toLower (b : Byte) : isHostByte (toLower b) = isHostByte b := (plainBytes b).1.1

theorem toLower_colon (b : Byte) : toLower b = ch ':' ↔ b = ch ':' := (plainBytes b).2.1

theorem toLower_bracket (b : Byte) : toLower b = ch '[' ↔ b = ch '[' := (plainBytes b).2.2.1

theorem toLower_close (b : Byte) : toLower b = ch ']' ↔ b = ch ']' := (plainBytes b).2.2.2.1

theorem lower_head_bracket {s : Str} : (lower s).head? = some (ch '[') ↔ s.head? = some (ch '[') := by
  cases s with
  | nil => simp [lower]
  | cons b rest => simp [lower, toLower_bracket]

theorem PlainScheme.lower {type : Str} (h : PlainScheme type) : PlainScheme (CString.lower type) := by
  obtain ⟨hfirst, hall⟩ := h
  constructor
  · cases type with
    | nil => exact hfirst
    | cons b rest =>
      have hb : isAlpha (toLower b) = isAlpha b := (plainBytes b).1.2.2
      simpa [CString.lower, hb] using hfirst
  · intro b hb
    obtain ⟨a, ha, rfl⟩ := List.mem_map.1 hb
    rw [(plainBytes a).1.2.1]
    exact hall a ha

theorem PlainHost.lower (h : PlainHost host) : PlainHost (CString.lower host) := by
  cases h with
  | name s hopen hs hlen =>
    apply PlainHost.name
    · rwa [ne_eq, lower_head_bracket]
    · intro b hb
      obtain ⟨a, ha, rfl⟩ := List.mem_map.1 hb
      rw [isHostByte_toLower, ne_eq, toLower_colon]
      exact hs a ha
    · simpa [CString.lower] using hlen
  | address s hs hlen =>
    have hopen : toLower (ch '[') = ch '[' := by decide
    have hclose : toLower (ch ']') = ch ']' := by decide
    have hmap : CString.lower (ch '[' :: (s ++ [ch ']'])) = ch '[' :: (CString.lower s ++ [ch ']']) := by
      simp [CString.lower, hopen, hclose]
    rw [hmap]
    apply PlainHost.address
    · intro b hb
      obtain ⟨a, ha, rfl⟩ := List.mem_map.1 hb
      rw [isHostByte_toLower, ne_eq, toLower_close]
      exact hs a ha
    · simpa [CString.lower] using hlen

theorem PlainHost.taken (h : PlainHost host) : TakenFor (unbracket host) host := by
  cases h with
  | name s hopen hs hlen =>
    cases host with
    | nil => rfl
    | cons b rest =>
      have hb : b ≠ ch '[' := by simpa using hopen
      simp [TakenFor, unbracket, hb]
  | address s hs hlen => simp [TakenFor, unbracket]

end Compare

/-! ## httpd on plain urls -/

/-- The host of an authority, and what stands behind it. -/
def cutHost (s : Str) : Str × Str :=
  if s.head? = some (ch '[') then
    (s.takeWhile (· != ch ']') ++ [ch ']'], (s.dropWhile (· != ch ']')).drop 1)
  else (s.takeWhile (· != ch ':'), s.dropWhile (· != ch ':'))

section Urls

variable {type host : Str}

theorem PlainHost.cut (h : PlainHost host) {tail : Str} (htail : ∀ b ∈ tail.head?, b = ch ':') :
    cutHost (host ++ tail) = (host, tail) := by
  have hstop : tail.takeWhile (· != ch ':') = [] ∧ tail.dropWhile (· != ch ':') = tail := by
    cases tail with
    | nil => exact ⟨rfl, rfl⟩
    | cons c tail =>
      have hc := htail c rfl
      simp [hc]
  cases h with
  | name s hopen hs hlen =>
    have hall : ∀ b ∈ host, (b != ch ':') = true := fun b hb => by simpa using (hs b hb).2
    have hopen' : (host ++ tail).head? ≠ some (ch '[') := by
      cases host with
      | nil =>
        rw [List.nil_append]
        intro hhead
        exact absurd (htail _ hhead) (by decide)
      | cons b s => exact hopen
    rw [cutHost, if_neg hopen', List.takeWhile_append_of_pos hall, List.dropWhile_append_of_pos hall, hstop.1, hstop.2,
      List.append_nil]
  | address s hs hlen =>
    have hall : ∀ b ∈ ch '[' :: s, (b != ch ']') = true := by
      intro b hb
      rcases List.mem_cons.1 hb with rfl | hb
      · decide
      · simpa using (hs b hb).2
    have hshape : ch '[' :: (s ++ [ch ']']) ++ tail = (ch '[' :: s) ++ ch ']' :: tail := by simp
    have hopen : (ch '[' :: (s ++ [ch ']']) ++ tail).head? = some (ch '[') := rfl
    rw [cutHost, if_pos hopen, hshape, List.takeWhile_append_of_pos hall, List.dropWhile_append_of_pos hall]
    simp

end Urls

/-! ## Two nodes and their workers -/

end ModCluster
