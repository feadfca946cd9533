import Aesd.Lib.Sources
import Aesd.Server.Service

/-!
# Which connection the bytes of a command come from

The server over any interleaving of its clients: the device holds the log of what all of them wrote
(`server_holds`), and the log with each byte tagged by its thread says where each stored byte comes
from. Each chunk is written in a critical section of its own, but the pending bytes of the device
belong to nobody: `connections_unmixed_iff` says exactly when no stored command mixes connections.
-/

namespace Aesd

open Threads (State Label)

variable {τ : Type*} [DecidableEq τ] {K : Kernel}

/-! ## What the threads wrote -/

/-- The chunks that a trace wrote to the device, with their threads. -/
def acceptedOf (tr : List (Label τ Sys Env)) : List (τ × Bytes) :=
  tr.filterMap fun l => (accepted l.ev).map (l.tid, ·)

/-- The log of a trace, each byte tagged with the connection that it was received on. -/
def provenance (tr : List (Label τ Sys Env)) : LineLog (τ × UInt8) :=
  LineLog.empty.writes (fun b => isNewline b.2) (LineLog.tagged (acceptedOf tr))

variable {tr u v : List (Label τ Sys Env)} {s s' m : State τ Client (Shared τ)}
  {l : Label τ Sys Env}

omit [DecidableEq τ] in
theorem acceptedOf_append (u v : List (Label τ Sys Env)) :
    acceptedOf (u ++ v) = acceptedOf u ++ acceptedOf v := List.filterMap_append

omit [DecidableEq τ] in
theorem mem_acceptedOf {p : τ × Bytes} :
    p ∈ acceptedOf tr ↔ ∃ l ∈ tr, l.tid = p.1 ∧ accepted l.ev = some p.2 := by
  simp only [acceptedOf, List.mem_filterMap, Option.map_eq_some_iff]
  constructor
  · rintro ⟨l, hl, bs, hbs, rfl⟩
    exact ⟨l, hl, rfl, hbs⟩
  · rintro ⟨l, hl, h1, h2⟩
    exact ⟨l, hl, p.2, h2, by rw [h1]⟩

/-- A call of the service: a call on the mutexes, and one on the device. -/
theorem service_eq_some {k k' : Shared τ} {t : τ} {ev : Sys} {env : Env} :
    service K k t ev env = some k' ↔
      ∃ k₁ r, mutexCall k t ev = some k₁ ∧ deviceCall K env k₁.driver (k₁.fPos t) ev = some r ∧
        k' = { k₁ with driver := r.1, fPos := Function.update k₁.fPos t r.2 } := by
  simp only [service, Option.bind_eq_some_iff, Option.map_eq_some_iff]
  constructor
  · rintro ⟨k₁, h1, r, h2, rfl⟩
    exact ⟨k₁, r, h1, h2, rfl⟩
  · rintro ⟨k₁, r, h1, h2, rfl⟩
    exact ⟨k₁, h1, r, h2, rfl⟩

omit [DecidableEq τ] in
/-- The mutexes are apart from the device and the open files. -/
theorem mutexCall_frame {k k' : Shared τ} {t : τ} {ev : Sys} (h : mutexCall k t ev = some k') :
    k'.driver = k.driver ∧ k'.fPos = k.fPos := by
  unfold mutexCall at h
  split at h
  · split at h
    · cases h; exact ⟨rfl, rfl⟩
    · cases h
  · split at h
    · cases h; exact ⟨rfl, rfl⟩
    · cases h
  all_goals
    cases h
    exact ⟨rfl, rfl⟩

/-- The device takes no empty chunk. -/
theorem accepted_ne_nil {env : Env} {d d' : Driver} {fPos fPos' : Int} {ev : Sys} {bs : Bytes}
    (hc : deviceCall K env d fPos ev = some (d', fPos')) (ha : accepted ev = some bs) : bs ≠ [] := by
  rintro rfl
  cases ev with
  | write bs ret =>
    simp only [accepted, Option.ite_none_right_eq_some, Option.some.injEq] at ha
    obtain ⟨hret, rfl⟩ := ha
    simp only [deviceCall, aesdWrite, List.length_nil, ↓reduceIte, Option.ite_none_right_eq_some]
      at hc
    have := hc.1
    simp only [sysResult, einval, erestartsys] at this
    omega
  | _ => cases ha

/-- After any run of the server the device holds the log of what the threads wrote. -/
theorem server_holds (h : (server τ K).lts.run (server.init τ) tr = some s) :
    Holds K s.shared.driver (LineLog.empty.writes isNewline ((acceptedOf tr).map Prod.snd)) ∧
      (∀ t, loffT (s.shared.fPos t) = s.shared.fPos t) ∧ ∀ p ∈ acceptedOf tr, p.2 ≠ [] := by
  refine Lts.run_history (I := fun tr s =>
    Holds K s.shared.driver (LineLog.empty.writes isNewline ((acceptedOf tr).map Prod.snd)) ∧
      (∀ t, loffT (s.shared.fPos t) = s.shared.fPos t) ∧ ∀ p ∈ acceptedOf tr, p.2 ≠ []) ?_ ?_ h
  · exact ⟨aesdInit_holds, fun _ => rfl, by simp [acceptedOf]⟩
  · rintro tr s l s' - ⟨hh, hp, hne⟩ hs
    obtain ⟨c, k, -, hk, rfl⟩ := Threads.next_eq_some.mp hs
    obtain ⟨k₁, ⟨d, p⟩, h1, h2, rfl⟩ := service_eq_some.mp hk
    obtain ⟨hd, hf⟩ := mutexCall_frame h1
    rw [hd, hf] at h2
    obtain ⟨hh', hp', -⟩ := hh.deviceCall (hp l.tid) h2
    refine ⟨?_, fun t => ?_, fun q hq => ?_⟩
    · rw [acceptedOf_append, List.map_append]
      unfold logSys at hh'
      cases ha : accepted l.ev with
      | none => simpa [acceptedOf, ha] using hh'
      | some bs =>
        rw [ha] at hh'
        simpa [acceptedOf, ha, LineLog.writes_snoc] using hh'
    · by_cases ht : t = l.tid
      · subst ht
        simpa using hp'
      · simpa [ht, hf] using hp t
    · rw [acceptedOf_append, List.mem_append] at hq
      rcases hq with hq | hq
      · exact hne q hq
      · obtain ⟨l', hl', -, ha⟩ := mem_acceptedOf.mp hq
        rw [List.mem_singleton.mp hl'] at ha
        exact accepted_ne_nil h2 ha

/-- The stored commands are the last commits of the tagged log, without the tags. -/
theorem server_commands (h : (server τ K).lts.run (server.init τ) tr = some s) :
    s.shared.driver.commands = ((provenance tr).committed.rtake maxWriteOperationsSupported).map
      (List.map Prod.snd) := by
  rw [(server_holds h).1.commands_eq, ← LineLog.map_snd_writes_tagged isNewline (acceptedOf tr)]
  simp [LineLog.map, provenance, List.rtake, List.map_drop]

/-! ## What a thread writes was received on its connection -/

/-- The chunk that a thread has at hand was received by it. -/
theorem chunk_received (h : (server τ K).lts.run (server.init τ) tr = some s) :
    ∀ t c, (s.local_ t).pc.chunk = some c → ∃ l ∈ tr, l.tid = t ∧ l.ev = .recv (some c) := by
  refine Lts.run_history (I := fun tr s => ∀ t c, (s.local_ t).pc.chunk = some c →
    ∃ l ∈ tr, l.tid = t ∧ l.ev = .recv (some c)) ?_ ?_ h
  · intro t c hc
    cases hc
  · rintro tr s l s' - ih hs t c hc
    obtain ⟨c', k, hc', -, rfl⟩ := Threads.next_eq_some.mp hs
    by_cases ht : t = l.tid
    · subst ht
      simp only [Function.update_self] at hc
      rcases (Client.next_eq_some hc').1.chunk hc with h' | h'
      · obtain ⟨l', hl', h⟩ := ih _ _ h'
        exact ⟨l', by simp [hl'], h⟩
      · exact ⟨l, by simp, rfl, h'⟩
    · simp only [Function.update_of_ne ht] at hc
      obtain ⟨l', hl', h⟩ := ih _ _ hc
      exact ⟨l', by simp [hl'], h⟩

/-- Every chunk written to the device is (the end of) a chunk received on the same connection. -/
theorem accepted_received (h : (server τ K).lts.run (server.init τ) tr = some s)
    {p : τ × Bytes} (hp : p ∈ acceptedOf tr) :
    ∃ l ∈ tr, l.tid = p.1 ∧ ∃ c, l.ev = .recv (some c) ∧ p.2 <:+ c := by
  obtain ⟨l, hl, ht, ha⟩ := mem_acceptedOf.mp hp
  obtain ⟨u, v, rfl⟩ := List.append_of_mem hl
  obtain ⟨m, h1, h2⟩ := Lts.run_append_eq_some.mp h
  obtain ⟨m', h3, -⟩ := Lts.run_cons_eq_some.mp h2
  obtain ⟨c', k, hc', -, rfl⟩ := Threads.next_eq_some.mp h3
  cases hev : l.ev with
  | write bs ret =>
    rw [hev] at ha hc'
    obtain ⟨c, hc, hsuf⟩ := (Client.next_eq_some hc').1.write_suffix
    obtain ⟨l', hl', ht', hev'⟩ := chunk_received h1 _ _ hc
    simp only [accepted, Option.ite_none_right_eq_some, Option.some.injEq] at ha
    exact ⟨l', by simp [hl'], ht'.trans ht, c, hev', ha.2 ▸ hsuf⟩
  | _ =>
    rw [hev] at ha
    cases ha

/-! ## Commands of one connection -/

omit [DecidableEq τ] in
/-- What holds of the chunks of every prefix of a trace, holds of every prefix of its chunks. -/
theorem forall_prefix_iff {P : List (τ × Bytes) → Prop} :
    (∀ u v, tr = u ++ v → P (acceptedOf u)) ↔ ∀ a b, acceptedOf tr = a ++ b → P a := by
  constructor
  · intro h a b hab
    obtain ⟨u, v, rfl, rfl, -⟩ := List.filterMap_eq_append_iff.mp hab
    exact h u v rfl
  · rintro h u v rfl
    exact h _ _ (acceptedOf_append u v)

/-- In a run of the server the tags say where the bytes of the stored commands come from: each chunk
in the log was received on its connection. No command stored at any time mixes connections exactly
when each chunk with a newline is written behind chunks of its own connection only, back to the last
chunk with a newline. -/
theorem connections_unmixed_iff (K : Kernel) (tr : List (Label τ Sys Env))
    (hrun : ((server τ K).lts.run (server.init τ) tr).isSome) :
    (∀ u v m, tr = u ++ v → (server τ K).lts.run (server.init τ) u = some m →
      m.shared.driver.commands =
        ((provenance u).committed.rtake maxWriteOperationsSupported).map (List.map Prod.snd)) ∧
    (∀ p ∈ acceptedOf tr, ∃ l ∈ tr, l.tid = p.1 ∧ ∃ c, l.ev = .recv (some c) ∧ p.2 <:+ c) ∧
    ((∀ u v, tr = u ++ v →
        ∀ e ∈ (provenance u).committed.rtake maxWriteOperationsSupported, LineLog.OneSource e) ↔
      ∀ u w v t c, acceptedOf tr = u ++ w ++ (t, c) :: v → c.any isNewline = true →
        (∀ p ∈ w, p.2.any isNewline = false) → ∀ p ∈ w, p.1 = t) := by
  obtain ⟨s, hs⟩ := Option.isSome_iff_exists.mp hrun
  refine ⟨fun u v m _ hm => server_commands hm, fun p hp => accepted_received hs hp, ?_⟩
  rw [← LineLog.oneSource_iff (server_holds hs).2.2]
  unfold provenance
  rw [forall_prefix_iff (P := fun a => ∀ e ∈ (LineLog.empty.writes (fun b => isNewline b.2)
    (LineLog.tagged a)).committed.rtake maxWriteOperationsSupported, LineLog.OneSource e),
    ← LineLog.forall_rtake_iff (n := maxWriteOperationsSupported) (by decide)]
  constructor
  · rintro h a b hab
    obtain ⟨a', b', hcs, rfl, -⟩ := List.map_eq_append_iff.mp hab
    exact h a' b' hcs
  · rintro h a b hab
    apply h (LineLog.tagged a) (LineLog.tagged b)
    rw [hab]
    simp [LineLog.tagged]

/-- One connection sends `"a"`, another one `"b\n"`. -/
def mixedTrace : List (Label Nat Sys Env) :=
  calls 0 (toFirstRecv ++ writesChunk [97] ++ releases) ++ calls 1 (toFirstRecv ++ writesChunk [98, 10])

/-- The command that they make is `"ab\n"`, from both connections. -/
theorem mixedTrace_mixes :
    ((server Nat kernel64).lts.run (server.init Nat) mixedTrace).map (·.shared.driver.commands) =
        some [[97, 98, 10]] ∧
      ¬ ∀ u v, mixedTrace = u ++ v →
        ∀ e ∈ (provenance u).committed.rtake maxWriteOperationsSupported, LineLog.OneSource e := by
  refine ⟨by decide, fun h => ?_⟩
  obtain ⟨t, ht⟩ := h mixedTrace [] (by simp) [(0, 97), (1, 98), (1, 10)] (by decide)
  have h0 := ht (0, 97) (by simp)
  have h1 := ht (1, 98) (by simp)
  exact absurd (h0.trans h1.symm) (by decide)

/-- One connection sends `"ab\n"` in two chunks, and has written the first one when another connection
sends `"c\n"`, which is written behind the second. -/
def unmixedTrace : List (Label Nat Sys Env) :=
  calls 0 (toFirstRecv ++ writesChunk [97]) ++ calls 1 (toFirstRecv ++ [.recv (some [99, 10])]) ++
    calls 0 (releases ++ writesChunk [98, 10] ++ responds [97, 98, 10] ++ releases) ++
    calls 1 [.lock .file true, .open true, .write [99, 10] 2]

theorem connections_unmixed_two_connections :
    ((server Nat kernel64).lts.run (server.init Nat) unmixedTrace).map (·.shared.driver.commands) =
        some [[97, 98, 10], [99, 10]] ∧
      ∀ u v, unmixedTrace = u ++ v →
        ∀ e ∈ (provenance u).committed.rtake maxWriteOperationsSupported, LineLog.OneSource e := by
  refine ⟨by decide, (connections_unmixed_iff kernel64 _ (by decide)).2.2.mpr ?_⟩
  intro u w v t c h _ hw p hp
  have hacc : acceptedOf unmixedTrace = [(0, [97]), (0, [98, 10]), (1, [99, 10])] := by decide
  rw [hacc] at h
  have hnl : ∀ q ∈ [(0, [98, 10]), ((1 : Nat), ([99, 10] : Bytes))], q.2.any isNewline = true := by
    decide
  -- only the first chunk has no newline, and the one behind it is of its connection
  cases u with
  | nil =>
    cases w with
    | nil => cases hp
    | cons q w =>
      obtain ⟨rfl, h'⟩ := List.cons.inj h
      cases w with
      | nil =>
        obtain ⟨heq, -⟩ := List.cons.inj h'
        rw [List.mem_singleton.mp hp]
        exact congrArg Prod.fst heq
      | cons q' w =>
        obtain ⟨rfl, -⟩ := List.cons.inj h'
        exact absurd (hw (0, [98, 10]) (by simp)) (by decide)
  | cons q u =>
    obtain ⟨-, h⟩ := List.cons.inj h
    have hmem : p ∈ [(0, [98, 10]), ((1 : Nat), ([99, 10] : Bytes))] := by
      rw [h]
      simp [hp]
    exact absurd ((hw p hp).symm.trans (hnl p hmem)) (by decide)

end Aesd
