import Aesd.Server.Response

/-!
# Every response is a snapshot of the device

The server without failures: how a thread handles one chunk, among any number of other threads. The
chunk's critical section splits the trace (`Section`), and runs alone (`server_section`), so the
response is that of `session_data` or `session_seek`: `response_snapshot`.
-/

namespace Aesd

open Threads (State Label labelsOf)

variable {τ : Type*} [DecidableEq τ] {K : Kernel} {tr u v : List (Label τ Sys Env)}
  {s s' m : State τ Client (Shared τ)} {t : τ} {l : Label τ Sys Env}

/-- No call of the trace fails. -/
def SmoothTrace (tr : List (Label τ Sys Env)) : Prop := ∀ l ∈ tr, Smooth (l.ev, l.env)

/-- What was sent to the client of thread `t`. -/
def sentTo (t : τ) (tr : List (Label τ Sys Env)) : Bytes := sentOf (labelsOf t tr)

/-- A thread between two chunks stays there, and sends nothing, until it receives a chunk. -/
theorem Client.Step.served {b : Build} {node : Bool} {pc pc' : Pc} {ev : Sys}
    (h : Client.Step b node pc ev pc') (hp : pc.served = true) (hr : ∀ c, ev ≠ .recv (some c)) :
    pc'.served = true ∧ sentBytes ev = [] := by
  cases h with
  | recv => exact absurd rfl (hr _)
  | _ => first | exact ⟨rfl, rfl⟩ | cases hp

/-- The same for a run. -/
theorem served_run (h : (server τ K).lts.run s tr = some s') (hp : (s.local_ t).pc.served = true)
    (hr : ∀ l ∈ tr, l.tid = t → ∀ c, l.ev ≠ .recv (some c)) :
    (s'.local_ t).pc.served = true ∧ sentTo t tr = [] := by
  induction tr generalizing s with
  | nil =>
    cases h
    exact ⟨hp, rfl⟩
  | cons l tr ih =>
    obtain ⟨m, h1, h2⟩ := Lts.run_cons_eq_some.mp h
    have hr' : ∀ l ∈ tr, l.tid = t → ∀ c, l.ev ≠ .recv (some c) := fun l hl => hr l (by simp [hl])
    obtain ⟨c, k, hc, -, rfl⟩ := Threads.next_eq_some.mp h1
    by_cases hl : l.tid = t
    · subst hl
      obtain ⟨h3, h4⟩ := (Client.next_eq_some hc).1.served hp (hr l (by simp) rfl)
      obtain ⟨h5, h6⟩ := ih h2 (by simpa using h3) hr'
      refine ⟨h5, ?_⟩
      rw [sentTo, Threads.labelsOf_cons_self, sentOf_cons, h4]
      exact h6
    · obtain ⟨h5, h6⟩ := ih h2 (by simpa [Function.update_of_ne (Ne.symm hl)] using hp) hr'
      refine ⟨h5, ?_⟩
      rw [sentTo, Threads.labelsOf_cons_ne hl]
      exact h6

/-! ## The critical section of a chunk -/

/-- The critical section of thread `t` in the trace `tr` from `s`: `t` makes no call before its lock
`lk`, after which the state is `m`; the section runs to `m₁`. -/
structure Section (K : Kernel) (t : τ) (s : State τ Client (Shared τ)) (u : List (Label τ Sys Env))
    (lk : Label τ Sys Env) (w : List (Label τ Sys Env)) (m m₁ : State τ Client (Shared τ)) :
    Prop where
  before : labelsOf t u = []
  tid : lk.tid = t
  lock : lk.ev = .lock .file true
  enter : (server τ K).lts.run s (u ++ [lk]) = some m
  inside : (server τ K).lts.run m w = some m₁
  keeps : ∀ l ∈ w, l.tid = t → l.ev ≠ .unlock .file

/-- A place from which the critical section at `q` is entered by the lock. -/
def Enters (p q : Pc) : Prop :=
  p.served = false ∧ p.holdsFile = false ∧ q.holdsFile = true ∧ q.answering = false ∧
    ∀ {node ev pc' env}, Client.Step .charDevice node p ev pc' → Smooth (ev, env) →
      ev = .lock .file true ∧ pc' = q

theorem enters_data (c : Bytes) : Enters (.dataLock c) (.dataOpen c) := by
  refine ⟨rfl, rfl, rfl, rfl, fun hs hsm => ?_⟩
  cases hs with
  | dataLock => exact ⟨rfl, rfl⟩
  | dataLockFails => cases hsm

theorem enters_seek (k : AesdSeekto) : Enters (.seekLock k) (.seekOpen k) := by
  refine ⟨rfl, rfl, rfl, rfl, fun hs hsm => ?_⟩
  cases hs with
  | seekLock => exact ⟨rfl, rfl⟩
  | seekSkip hb => cases hb
  | seekLockFails => cases hsm

/-- An unlock of `file_mutex` ends a critical section. -/
theorem Client.Step.unlock_file {b : Build} {node : Bool} {pc pc' : Pc}
    (h : Client.Step b node pc (.unlock .file) pc') :
    (∃ after, pc = .unlock after) ∧ pc'.served = true := by
  cases h with
  | @unlock after => exact ⟨⟨after, rfl⟩, by cases after <;> rfl⟩

omit [DecidableEq τ] in
theorem SmoothTrace.mem (h : SmoothTrace tr) (hl : l ∈ tr) : Smooth (l.ev, l.env) := h l hl

theorem labelsOf_eq_nil (h : ∀ l ∈ tr, ¬ l.tid = t) : labelsOf t tr = [] := by
  rw [labelsOf, List.map_eq_nil_iff, List.filter_eq_nil_iff]
  simpa using h

/-- How far a thread is with a chunk: before its critical section, in it, or behind it. -/
theorem section_cases {p q : Pc} (he : Enters p q) (hm : MutexInv s) (hp : (s.local_ t).pc = p)
    (hs : SmoothTrace tr) (hrun : (server τ K).lts.run s tr = some s') :
    ((s'.local_ t).pc = p ∧ labelsOf t tr = []) ∨
    (∃ u lk w m, tr = u ++ lk :: w ∧ Section K t s u lk w m s' ∧ (m.local_ t).pc = q ∧
      (s'.local_ t).pc.holdsFile = true) ∨
    (∃ u lk w ul v m m₁ m', tr = u ++ lk :: (w ++ ul :: v) ∧ Section K t s u lk w m m₁ ∧
      (m.local_ t).pc = q ∧ ul.tid = t ∧ ul.ev = .unlock .file ∧
      (server τ K).lts.next m₁ ul = some m' ∧ (server τ K).lts.run m' v = some s' ∧
      (∃ after, (m₁.local_ t).pc = .unlock after) ∧ (m'.local_ t).pc.served = true) := by
  obtain ⟨-, -, hhold, -, henter⟩ := he
  rcases List.exists_first (fun l : Label τ Sys Env => l.tid = t) tr with
    hnone | ⟨u, lk, rest, rfl, rfl, hu⟩
  · have hnil := labelsOf_eq_nil hnone
    refine .inl ⟨?_, hnil⟩
    rw [Threads.local_eq_of_labelsOf_nil hrun hnil, hp]
  · have hnil := labelsOf_eq_nil hu
    obtain ⟨m₀, h0, hrun⟩ := Lts.run_append_eq_some.mp hrun
    obtain ⟨m, h1, h2⟩ := Lts.run_cons_eq_some.mp hrun
    have henterRun : (server τ K).lts.run s (u ++ [lk]) = some m :=
      Lts.run_snoc_eq_some.mpr ⟨m₀, h0, h1⟩
    -- the first call of the thread is the lock
    have hstep := (Client.next_eq_some (Session.next_eq_some.mp (view_next h1)).1).1
    simp only [view, Threads.local_eq_of_labelsOf_nil h0 hnil, hp] at hstep
    obtain ⟨hev, hq⟩ := henter hstep (hs.mem (by simp))
    have hmm : MutexInv m :=
      Lts.run_invariant (fun _ _ _ ih hs => MutexInv.next ih hs) hm henterRun
    have hin : (m.local_ lk.tid).pc.holdsFile = true := by rw [hq, hhold]
    rcases List.exists_first (fun l : Label τ Sys Env => l.tid = lk.tid ∧ l.ev = .unlock .file)
      rest with hnone | ⟨w, ul, v, rfl, ⟨htid, hul⟩, hw⟩
    · have hkeeps : ∀ l ∈ rest, l.tid = lk.tid → l.ev ≠ .unlock .file :=
        fun l hl ht hev => hnone l hl ⟨ht, hev⟩
      exact .inr (.inl ⟨u, lk, rest, m, rfl, ⟨hnil, rfl, hev, henterRun, h2, hkeeps⟩, hq,
        (server_section hmm hin h2 hkeeps).1⟩)
    · have hkeeps : ∀ l ∈ w, l.tid = lk.tid → l.ev ≠ .unlock .file :=
        fun l hl ht hev => hw l hl ⟨ht, hev⟩
      obtain ⟨m₁, h3, h4⟩ := Lts.run_append_eq_some.mp h2
      obtain ⟨m', h5, h6⟩ := Lts.run_cons_eq_some.mp h4
      have hstep' := (Client.next_eq_some (Session.next_eq_some.mp (view_next h5)).1).1
      rw [hul, htid] at hstep'
      obtain ⟨hafter, hserved⟩ := hstep'.unlock_file
      exact .inr (.inr ⟨u, lk, w, ul, v, m, m₁, m', rfl, ⟨hnil, rfl, hev, henterRun, h3, hkeeps⟩, hq,
        htid, hul, h5, h6, hafter, hserved⟩)

namespace Section

variable {lk : Label τ Sys Env} {w : List (Label τ Sys Env)} {m₁ : State τ Client (Shared τ)} {q : Pc}

theorem labels (h : Section K t s u lk w m m₁) :
    labelsOf t (u ++ lk :: w) = (lk.ev, lk.env) :: labelsOf t w := by
  rw [Threads.labelsOf_append, h.before, List.nil_append, ← h.tid, Threads.labelsOf_cons_self]

theorem sent (h : Section K t s u lk w m m₁) : sentTo t (u ++ lk :: w) = sentOf (labelsOf t w) := by
  rw [sentTo, h.labels, sentOf_cons, h.lock]
  rfl

/-- The section is a run of the thread alone. -/
theorem session (h : Section K t s u lk w m m₁) (hm : MutexInv s) (hq : (m.local_ t).pc = q)
    (hold : q.holdsFile = true) :
    (Session.lts K).run (view t m) (labelsOf t w) = some (view t m₁) := by
  have hmm : MutexInv m := Lts.run_invariant (fun _ _ _ ih hs => MutexInv.next ih hs) hm h.enter
  exact (server_section hmm (by rw [hq, hold]) h.inside h.keeps).2

/-- Its calls do not fail and do not unlock. -/
theorem smooth (h : Section K t s u lk w m m₁) (hs : SmoothTrace w) :
    ∀ l ∈ labelsOf t w, Smooth l ∧ l.1 ≠ .unlock .file := by
  intro x hx
  obtain ⟨l, hl, ht, rfl⟩ := Threads.mem_labelsOf.mp hx
  exact ⟨hs l hl, h.keeps l hl ht⟩

end Section

/-- In the trace `tr` from `s`, thread `t` writes the chunk `c` by the step from `m` to `m'`. -/
def WritesAt (K : Kernel) (t : τ) (s : State τ Client (Shared τ)) (tr : List (Label τ Sys Env))
    (c : Bytes) (m m' : State τ Client (Shared τ)) : Prop :=
  ∃ u l v, tr = u ++ l :: v ∧ l.tid = t ∧ l.ev = .write c c.length ∧
    (server τ K).lts.run s u = some m ∧ (server τ K).lts.next m l = some m'

theorem WritesAt.append {c : Bytes} {m' : State τ Client (Shared τ)}
    (h : WritesAt K t s tr c m m') : WritesAt K t s (tr ++ v) c m m' := by
  obtain ⟨u, l, v', rfl, h⟩ := h
  exact ⟨u, l, v' ++ v, by simp, h⟩

/-- The critical section of a chunk of data, once it answers. -/
theorem data_section {pre : List (Label τ Sys Env)} {lk : Label τ Sys Env} {w : List (Label τ Sys Env)}
    {m₁ : State τ Client (Shared τ)} {c : Bytes}
    (hpre : (server τ K).lts.run (server.init τ) pre = some s) (hsec : Section K t s u lk w m m₁)
    (hq : (m.local_ t).pc = .dataOpen c) (hc : c ≠ []) (hs : SmoothTrace w)
    (ha : (m₁.local_ t).pc.answering = true) :
    ∃ n n', WritesAt K t s (u ++ lk :: w) c n n' ∧
      m₁.shared.driver = n'.shared.driver ∧
      if c.any isNewline then
        (∃ older, n'.shared.driver.commands = older ++ [n.shared.driver.pendingBytes ++ c]) ∧
        Serving n'.shared.driver.commands.flatten n'.shared.driver.commands.flatten .cleanup
          (view t m₁) (sentTo t (u ++ lk :: w)) ∧
        (labelsOf t (u ++ lk :: w)).length ≤ 2 * n'.shared.driver.commands.flatten.length + 7
      else sentTo t (u ++ lk :: w) = [] ∧ (m₁.local_ t).pc.responding = false := by
  have hinit : (server τ K).lts.run (server.init τ) (pre ++ (u ++ [lk])) = some m :=
    Lts.run_append_eq_some.mpr ⟨s, hpre, hsec.enter⟩
  obtain ⟨o, x, rest, mv, hlabels, hx, hrun, -, hd, hres⟩ := session_data (s := view t m) hq hc
    (server_holds hinit).1 (hsec.smooth hs) ha (hsec.session (server_mutex hpre) hq rfl)
  -- the write in the trace
  obtain ⟨w₁, l, w₂, rfl, ht, rfl, hw₁, -⟩ :=
    Threads.labelsOf_eq_append (show labelsOf t w = [o] ++ x :: rest from hlabels)
  obtain ⟨n, hn, hrest⟩ := Lts.run_append_eq_some.mp hsec.inside
  obtain ⟨n', hn', -⟩ := Lts.run_cons_eq_some.mp hrest
  have hcut : Section K t s u lk (w₁ ++ [l]) m n' :=
    ⟨hsec.before, hsec.tid, hsec.lock, hsec.enter, Lts.run_snoc_eq_some.mpr ⟨n, hn, hn'⟩,
      fun x hx => hsec.keeps x (by
        simp only [List.mem_append, List.mem_cons] at hx ⊢
        tauto)⟩
  have hcutRun := hcut.session (server_mutex hpre) hq rfl
  rw [Threads.labelsOf_append, hw₁, ← ht, Threads.labelsOf_cons_self, Threads.labelsOf_nil, ht]
    at hcutRun
  obtain rfl : mv = view t n' := Option.some.inj (hrun.symm.trans hcutRun)
  refine ⟨n, n', ⟨u ++ lk :: w₁, l, w₂, by simp, ht, hx, ?_, hn'⟩, hd, ?_⟩
  · rw [show u ++ lk :: w₁ = (u ++ [lk]) ++ w₁ by simp]
    exact Lts.run_append_eq_some.mpr ⟨m, hsec.enter, hn⟩
  rw [hsec.sent, hsec.labels]
  split at hres
  · rename_i hnl
    rw [if_pos hnl]
    refine ⟨?_, hres.1, Nat.succ_le_succ hres.2⟩
    -- the pending bytes just before the write
    have hpos : (0 : Int) < c.length := by
      have := List.length_pos_iff.mpr hc
      omega
    have hg := (server_holds (Lts.run_append_eq_some.mpr ⟨m, hinit, hn⟩)).1
    have hcall := (Session.next_eq_some.mp (view_next hn')).2
    rw [show l.ev = _ from hx] at hcall
    exact hg.commands_write (deviceCall_write hg hcall hpos).2.1 hnl
  · rename_i hnl
    rw [if_neg hnl]
    refine ⟨hres.1, ?_⟩
    have hpc : (m₁.local_ t).pc = .close .recv ∨ (m₁.local_ t).pc = .unlock .recv := hres.2
    rcases hpc with h | h <;> rw [h] <;> rfl

/-- The critical section of a seek, once it answers. -/
theorem seek_section {pre : List (Label τ Sys Env)} {lk : Label τ Sys Env} {w : List (Label τ Sys Env)}
    {m₁ : State τ Client (Shared τ)} {k : AesdSeekto}
    (hpre : (server τ K).lts.run (server.init τ) pre = some s) (hsec : Section K t s u lk w m m₁)
    (hq : (m.local_ t).pc = .seekOpen k) (hs : SmoothTrace w)
    (ha : (m₁.local_ t).pc.answering = true) :
    m₁.shared.driver = m.shared.driver ∧
      match seekAt m.shared.driver.commands k.writeCmd.toNat k.writeCmdOffset.toNat with
      | none => sentTo t (u ++ lk :: w) = [] ∧ (m₁.local_ t).pc.responding = false
      | some p =>
        Serving m.shared.driver.commands.flatten (m.shared.driver.commands.flatten.drop p) .recv
          (view t m₁) (sentTo t (u ++ lk :: w)) ∧
        (labelsOf t (u ++ lk :: w)).length ≤ 2 * m.shared.driver.commands.flatten.length + 7 := by
  have hinit : (server τ K).lts.run (server.init τ) (pre ++ (u ++ [lk])) = some m :=
    Lts.run_append_eq_some.mpr ⟨s, hpre, hsec.enter⟩
  obtain ⟨hd, hres⟩ := session_seek (s := view t m) hq (server_holds hinit).1 (hsec.smooth hs) ha
    (hsec.session (server_mutex hpre) hq rfl)
  refine ⟨hd, ?_⟩
  rw [hsec.sent, hsec.labels]
  cases hseek : seekAt m.shared.driver.commands k.writeCmd.toNat k.writeCmdOffset.toNat with
  | none =>
    simp only [view, hseek] at hres
    refine ⟨hres.1, ?_⟩
    rcases hres.2 with h | h <;> rw [h] <;> rfl
  | some p =>
    simp only [view, hseek] at hres
    refine ⟨hres.1, ?_⟩
    have := hres.2
    rw [List.length_cons]
    omega

/-! ## The response to a chunk -/

theorem Pc.not_served_of_holdsFile {pc : Pc} (h : pc.holdsFile = true) : pc.served = false := by
  cases pc <;> first | rfl | cases h

theorem Pc.not_responding_of_served {pc : Pc} (h : pc.served = true) : pc.responding = false := by
  cases pc <;> first | rfl | cases h

theorem Pc.answering_of_responding {pc : Pc} (h : pc.responding = true) : pc.answering = true := by
  cases pc <;> first | rfl | cases h

theorem Pc.holdsFile_of_responding {pc : Pc} (h : pc.responding = true) : pc.holdsFile = true := by
  cases pc <;> first | rfl | cases h

/-- After the response loop everything is sent. -/
theorem Serving.done {D target sent : Bytes} {after a : After} {x : Session}
    (h : Serving D target after x sent) (hpc : x.client.pc = .unlock a) : sent = target := by
  rw [Serving, hpc] at h
  exact h.2

/-- In the response loop the thread can go on. -/
theorem Serving.enabled {D target sent : Bytes} {after : After}
    (hrun : (server τ K).lts.run (server.init τ) tr = some s)
    (h : Serving D target after (view t s) sent) (hloop : (s.local_ t).pc.responding = true) :
    ∃ l, l.tid = t ∧ Smooth (l.ev, l.env) ∧ ((server τ K).lts.next s l).isSome := by
  obtain ⟨hg, hpos, -⟩ := server_holds hrun
  obtain ⟨⟨ev, env⟩, hsm, hlock, hunlock, hnext⟩ := h.exists_next hg (hpos t) hloop
  obtain ⟨x, hx⟩ := Option.isSome_iff_exists.mp hnext
  obtain ⟨hc, hd⟩ := Session.next_eq_some.mp hx
  have hmutex : mutexCall s.shared t ev = some s.shared := by
    unfold mutexCall
    split
    · exact absurd rfl (hlock _ _)
    · exact absurd rfl (hlock _ _)
    · exact absurd rfl (hunlock _)
    · exact absurd rfl (hunlock _)
    · rfl
  refine ⟨⟨t, ev, env⟩, rfl, hsm, Option.isSome_iff_exists.mpr ⟨_, Threads.next_eq_some.mpr
    ⟨_, _, hc, service_eq_some.mpr ⟨_, _, hmutex, hd, rfl⟩, rfl⟩⟩⟩

/-- A thread behind a critical section sends nothing more for its chunk. -/
theorem sentTo_of_served (w₁ : List (Label τ Sys Env)) {w₂ : List (Label τ Sys Env)}
    {ul : Label τ Sys Env}
    (hul : ul.ev = .unlock .file) (hrun : (server τ K).lts.run s w₂ = some s')
    (hserved : (s.local_ t).pc.served = true)
    (hlast : ∀ l ∈ w₂, l.tid = t → ∀ c, l.ev ≠ .recv (some c)) :
    sentTo t (w₁ ++ ul :: w₂) = sentTo t w₁ ∧ (s'.local_ t).pc.served = true := by
  obtain ⟨h1, h2⟩ := served_run hrun hserved hlast
  refine ⟨?_, h1⟩
  have h3 : sentTo t (ul :: w₂) = [] := by
    by_cases ht : ul.tid = t
    · subst ht
      rw [sentTo, Threads.labelsOf_cons_self, sentOf_cons, hul]
      exact h2
    · rwa [sentTo, Threads.labelsOf_cons_ne ht]
  rw [sentTo, Threads.labelsOf_append, sentOf_append]
  exact (congrArg _ h3).trans (List.append_nil _)

/-- The response to a chunk whose critical section begins at `q`: what the thread sends is what it
sends in the section, and in a response loop that serves the retained bytes it makes progress. -/
theorem section_response {pre : List (Label τ Sys Env)} {p q : Pc} (he : Enters p q)
    (hpre : (server τ K).lts.run (server.init τ) pre = some s) (hp : (s.local_ t).pc = p)
    (hs : SmoothTrace tr) (hrun : (server τ K).lts.run s tr = some s')
    (hlast : ∀ l ∈ tr, l.tid = t → ∀ c, l.ev ≠ .recv (some c))
    (hserving : ∀ {u lk w m m₁}, Section K t s u lk w m m₁ → (m.local_ t).pc = q →
      SmoothTrace w → (m₁.local_ t).pc.responding = true → ∃ target after,
        Serving m₁.shared.driver.commands.flatten target after (view t m₁)
            (sentTo t (u ++ lk :: w)) ∧
          (labelsOf t (u ++ lk :: w)).length ≤ 2 * m₁.shared.driver.commands.flatten.length + 7) :
    ((s'.local_ t).pc.served = true →
      ∃ u lk w ul v m m₁ m' after, tr = u ++ lk :: (w ++ ul :: v) ∧ Section K t s u lk w m m₁ ∧
        (m.local_ t).pc = q ∧ SmoothTrace w ∧ ul.tid = t ∧ ul.ev = .unlock .file ∧
        (server τ K).lts.next m₁ ul = some m' ∧ (m₁.local_ t).pc = .unlock after ∧
        sentTo t tr = sentTo t (u ++ lk :: w)) ∧
    ((s'.local_ t).pc.responding = true →
      (labelsOf t tr).length ≤ 2 * s'.shared.driver.commands.flatten.length + 7 ∧
        ∃ l, l.tid = t ∧ Smooth (l.ev, l.env) ∧ ((server τ K).lts.next s' l).isSome) := by
  rcases section_cases he (server_mutex hpre) hp hs hrun with
    ⟨hpc, -⟩ | ⟨u, lk, w, m, rfl, hsec, hq, hhold⟩ |
      ⟨u, lk, w, ul, v, m, m₁, m', rfl, hsec, hq, ht, hul, hm', hv, ⟨a, ha⟩, hserved⟩
  · refine ⟨fun h => ?_, fun h => ?_⟩
    · rw [hpc, he.1] at h
      cases h
    · have hhold := Pc.holdsFile_of_responding h
      rw [hpc, he.2.1] at hhold
      cases hhold
  · refine ⟨fun h => ?_, fun h => ?_⟩
    · rw [Pc.not_served_of_holdsFile hhold] at h
      cases h
    · obtain ⟨target, after, hserve, hlen⟩ := hserving hsec hq (fun l hl => hs l (by simp [hl])) h
      exact ⟨hlen, hserve.enabled (Lts.run_append_eq_some.mpr ⟨s, hpre, hrun⟩) h⟩
  · obtain ⟨hsent, hserved'⟩ := sentTo_of_served (u ++ lk :: w) hul hv hserved
      (fun l hl => hlast l (by simp [hl]))
    refine ⟨fun _ => ⟨u, lk, w, ul, v, m, m₁, m', a, rfl, hsec, hq,
      fun l hl => hs l (by simp [hl]), ht, hul, hm', ha, ?_⟩, fun h => ?_⟩
    · rw [← hsent, List.append_assoc, List.cons_append]
    · rw [Pc.not_responding_of_served hserved'] at h
      cases h

/-- A chunk of data: the response, once the thread is through with it, and its progress before. -/
theorem data_response {pre : List (Label τ Sys Env)} {c : Bytes}
    (hpre : (server τ K).lts.run (server.init τ) pre = some s) (hp : (s.local_ t).pc = .dataLock c)
    (hc : c ≠ []) (hs : SmoothTrace tr) (hrun : (server τ K).lts.run s tr = some s')
    (hlast : ∀ l ∈ tr, l.tid = t → ∀ c, l.ev ≠ .recv (some c)) :
    ((s'.local_ t).pc.served = true →
      if c.any isNewline then
        ∃ n n', WritesAt K t s tr c n n' ∧
          (∃ older, n'.shared.driver.commands = older ++ [n.shared.driver.pendingBytes ++ c]) ∧
          sentTo t tr = n'.shared.driver.commands.flatten
      else sentTo t tr = []) ∧
    ((s'.local_ t).pc.responding = true →
      (labelsOf t tr).length ≤ 2 * s'.shared.driver.commands.flatten.length + 7 ∧
        ∃ l, l.tid = t ∧ Smooth (l.ev, l.env) ∧ ((server τ K).lts.next s' l).isSome) := by
  obtain ⟨hdone, hprogress⟩ := section_response (enters_data c) hpre hp hs hrun hlast
    fun hsec hq hs h => by
      obtain ⟨n, n', -, hd, hres⟩ := data_section hpre hsec hq hc hs (Pc.answering_of_responding h)
      split at hres
      · rw [hd]
        exact ⟨_, _, hres.2⟩
      · rw [hres.2] at h
        cases h
  refine ⟨fun h => ?_, hprogress⟩
  obtain ⟨u, lk, w, ul, v, m, m₁, m', a, rfl, hsec, hq, hs, -, -, -, ha, hsent⟩ := hdone h
  obtain ⟨n, n', hw, -, hres⟩ := data_section hpre hsec hq hc hs (by rw [ha]; rfl)
  rw [hsent]
  split at hres
  · rename_i hnl
    obtain ⟨holder, hserving, -⟩ := hres
    rw [if_pos hnl]
    refine ⟨n, n', ?_, holder, hserving.done ha⟩
    rw [← List.cons_append, ← List.append_assoc]
    exact hw.append
  · rename_i hnl
    rw [if_neg hnl]
    exact hres.1

/-- In the trace `tr` from `s`, thread `t` is in a critical section of `file_mutex` from `m` to
`m'`. -/
def SectionAt (K : Kernel) (t : τ) (s : State τ Client (Shared τ)) (tr : List (Label τ Sys Env))
    (m m' : State τ Client (Shared τ)) : Prop :=
  ∃ u lk w ul v m₁, tr = u ++ lk :: (w ++ ul :: v) ∧ Section K t s u lk w m m₁ ∧ ul.tid = t ∧
    ul.ev = .unlock .file ∧ (server τ K).lts.next m₁ ul = some m'

/-- A seek: the response, once the thread is through with it, and its progress before. -/
theorem seek_response {pre : List (Label τ Sys Env)} {k : AesdSeekto}
    (hpre : (server τ K).lts.run (server.init τ) pre = some s) (hp : (s.local_ t).pc = .seekLock k)
    (hs : SmoothTrace tr) (hrun : (server τ K).lts.run s tr = some s')
    (hlast : ∀ l ∈ tr, l.tid = t → ∀ c, l.ev ≠ .recv (some c)) :
    ((s'.local_ t).pc.served = true →
      ∃ m m', SectionAt K t s tr m m' ∧ m'.shared.driver = m.shared.driver ∧
        match seekAt m.shared.driver.commands k.writeCmd.toNat k.writeCmdOffset.toNat with
        | none => sentTo t tr = []
        | some p => sentTo t tr = m.shared.driver.commands.flatten.drop p) ∧
    ((s'.local_ t).pc.responding = true →
      (labelsOf t tr).length ≤ 2 * s'.shared.driver.commands.flatten.length + 7 ∧
        ∃ l, l.tid = t ∧ Smooth (l.ev, l.env) ∧ ((server τ K).lts.next s' l).isSome) := by
  obtain ⟨hdone, hprogress⟩ := section_response (enters_seek k) hpre hp hs hrun hlast
    fun hsec hq hs h => by
      obtain ⟨hd, hres⟩ := seek_section hpre hsec hq hs (Pc.answering_of_responding h)
      split at hres
      · rw [hres.2] at h
        cases h
      · rw [hd]
        exact ⟨_, _, hres⟩
  refine ⟨fun h => ?_, hprogress⟩
  obtain ⟨u, lk, w, ul, v, m, m₁, m', a, rfl, hsec, hq, hs, ht, hul, hm', ha, hsent⟩ := hdone h
  obtain ⟨hd, hres⟩ := seek_section hpre hsec hq hs (by rw [ha]; rfl)
  refine ⟨m, m', ⟨u, lk, w, ul, v, m₁, rfl, hsec, ht, hul, hm'⟩, ?_, ?_⟩
  · -- the unlock is apart from the device
    obtain ⟨c', k', -, hk, rfl⟩ := Threads.next_eq_some.mp hm'
    obtain ⟨k₁, r, h1, h2, rfl⟩ := service_eq_some.mp hk
    rw [hul] at h2
    cases h2
    exact (mutexCall_frame h1).1.trans hd
  · rw [hsent]
    split at hres
    · exact hres.1
    · exact hres.1.done ha

/-- The response to the chunk `c` that thread `t` receives in any run of the server, where `tr` is
what happens until `t` receives again. For data with a newline it is what the device retains right
after `c` was written; for a seek to a stored byte, what it retains from there; else nothing. In the
response loop the thread can always go on, and the calls that it makes are bounded. -/
theorem response_snapshot (K : Kernel) (pre tr : List (Label τ Sys Env)) (t : τ) (c : Bytes)
    (env : Env) (s s₁ s' : State τ Client (Shared τ))
    (hpre : (server τ K).lts.run (server.init τ) pre = some s)
    (hrecv : (server τ K).lts.next s ⟨t, .recv (some c), env⟩ = some s₁)
    (hrun : (server τ K).lts.run s₁ tr = some s') (hsmooth : SmoothTrace tr)
    (hlast : ∀ l ∈ tr, l.tid = t → ∀ c', l.ev ≠ .recv (some c')) :
    ((s'.local_ t).pc.served = true →
      (¬ seekPrefix <+: c → c.any isNewline = true →
        ∃ m m', WritesAt K t s₁ tr c m m' ∧
          (∃ older, m'.shared.driver.commands = older ++ [m.shared.driver.pendingBytes ++ c]) ∧
          sentTo t tr = m'.shared.driver.commands.flatten) ∧
      (∀ k, seekPrefix <+: c → sscanfSeekto (c.drop seekPrefix.length) = some k →
        ∃ m m', SectionAt K t s₁ tr m m' ∧ m'.shared.driver = m.shared.driver ∧
          (∀ l, m.shared.driver.commands[k.writeCmd.toNat]? = some l →
            k.writeCmdOffset.toNat < l.length → sentTo t tr =
              (m.shared.driver.commands.drop k.writeCmd.toNat).flatten.drop k.writeCmdOffset.toNat) ∧
          ((∀ l, m.shared.driver.commands[k.writeCmd.toNat]? = some l →
            l.length ≤ k.writeCmdOffset.toNat) → sentTo t tr = [])) ∧
      (¬ seekPrefix <+: c → c.any isNewline = false → sentTo t tr = []) ∧
      (seekPrefix <+: c → sscanfSeekto (c.drop seekPrefix.length) = none → sentTo t tr = [])) ∧
    ((s'.local_ t).pc.responding = true →
      (labelsOf t tr).length ≤ 2 * s'.shared.driver.commands.flatten.length + 7 ∧
        ∃ l, l.tid = t ∧ Smooth (l.ev, l.env) ∧ ((server τ K).lts.next s' l).isSome) := by
  have hpre₁ : (server τ K).lts.run (server.init τ) (pre ++ [⟨t, .recv (some c), env⟩]) = some s₁ :=
    Lts.run_snoc_eq_some.mpr ⟨s, hpre, hrecv⟩
  have hstep := (Client.next_eq_some (Session.next_eq_some.mp (view_next hrecv)).1).1
  obtain ⟨hc, hpc⟩ : c ≠ [] ∧ (s₁.local_ t).pc = Client.dispatch c := by
    simp only [view] at hstep
    generalize (s.local_ t).pc = pc at hstep
    generalize (s₁.local_ t).pc = pc' at hstep ⊢
    cases hstep with
    | recv hne hfits => exact ⟨hne, rfl⟩
  unfold Client.dispatch at hpc
  by_cases hprefix : seekPrefix <+: c
  · rw [if_pos hprefix] at hpc
    cases hparse : sscanfSeekto (c.drop seekPrefix.length) with
    | none =>
      -- a format error
      rw [hparse] at hpc
      obtain ⟨hserved, hsent⟩ := served_run hrun (by rw [hpc]; rfl) hlast
      refine ⟨fun _ => ⟨fun h => absurd hprefix h, by simp, fun h => absurd hprefix h,
        fun _ _ => hsent⟩, fun h => ?_⟩
      rw [Pc.not_responding_of_served hserved] at h
      cases h
    | some k =>
      rw [hparse] at hpc
      obtain ⟨hdone, hprogress⟩ := seek_response hpre₁ hpc hsmooth hrun hlast
      refine ⟨fun h => ⟨fun h => absurd hprefix h, ?_, fun h => absurd hprefix h, by simp⟩, hprogress⟩
      rintro _ - ⟨⟩
      obtain ⟨m, m', hsec, hd, hsent⟩ := hdone h
      refine ⟨m, m', hsec, hd, fun l hl hlt => ?_, fun hnone => ?_⟩
      · have hseek : seekAt m.shared.driver.commands k.writeCmd.toNat k.writeCmdOffset.toNat =
            some ((m.shared.driver.commands.take k.writeCmd.toNat).flatten.length +
              k.writeCmdOffset.toNat) := by
          simp only [seekAt, hl, if_pos hlt]
        rw [hseek] at hsent
        exact hsent.trans (drop_seekAt hseek).2
      · have hseek : seekAt m.shared.driver.commands k.writeCmd.toNat k.writeCmdOffset.toNat = none := by
          unfold seekAt
          split
          · rfl
          · rename_i l hl
            exact if_neg (Nat.not_lt.mpr (hnone l hl))
        rw [hseek] at hsent
        exact hsent
  · rw [if_neg hprefix] at hpc
    obtain ⟨hdone, hprogress⟩ := data_response hpre₁ hpc hc hsmooth hrun hlast
    refine ⟨fun h => ⟨fun _ hnl => ?_, fun _ h => absurd h hprefix, fun _ hnl => ?_,
      fun h => absurd h hprefix⟩, hprogress⟩
    · have := hdone h
      rwa [if_pos hnl] at this
    · have := hdone h
      rwa [if_neg (by simp [hnl])] at this

/-- A client has stored `"a\n"`, and two others are connected. -/
def storesFirst : List (Label Nat Sys Env) :=
  calls 1 (toFirstRecv ++ writesChunk [97, 10] ++ responds [97, 10] ++ releases) ++
    calls 0 toFirstRecv ++ calls 2 toFirstRecv

/-- What one of them does with a seek to the second byte, and then the other one with `"b\n"`; this
response leaves in three parts. -/
def answers : List (Label Nat Sys Env) :=
  calls 0 [.lock .file true, .open true, .ioctl ⟨0, 1⟩ true, .read (some [10]), .send [10] 1,
      .read (some []), .close, .unlock .file] ++
    calls 2 [.lock .file true, .open true, .write [98, 10] 2, .close, .open true,
      .read (some [97, 10]), .send [97, 10] 1, .send [10] 1, .read (some [98, 10]),
      .send [98, 10] 2, .read (some []), .close, .unlock .file]

/-- `"AESDCHAR_IOCSEEKTO:0,1"`. -/
def seekChunk : Bytes := seekPrefix ++ [48, 44, 49]

theorem response_snapshot_two_clients : ∃ s s₁ s₂ s',
    (server Nat kernel64).lts.run (server.init Nat) storesFirst = some s ∧
      (server Nat kernel64).lts.next s ⟨0, .recv (some seekChunk), .succeeds⟩ = some s₁ ∧
      (server Nat kernel64).lts.next s₁ ⟨2, .recv (some [98, 10]), .succeeds⟩ = some s₂ ∧
      (server Nat kernel64).lts.run s₂ answers = some s' ∧
      sentTo 0 answers = [10] ∧ sentTo 2 answers = [97, 10, 98, 10] ∧
      (∃ m m', SectionAt kernel64 0 s₁ (⟨2, .recv (some [98, 10]), .succeeds⟩ :: answers) m m' ∧
        ∀ l, m.shared.driver.commands[0]? = some l → 1 < l.length →
          sentTo 0 (⟨2, .recv (some [98, 10]), .succeeds⟩ :: answers) =
            m.shared.driver.commands.flatten.drop 1) ∧
      ∃ m m', WritesAt kernel64 2 s₂ answers [98, 10] m m' ∧
        sentTo 2 answers = m'.shared.driver.commands.flatten := by
  have hall : (((server Nat kernel64).lts.run (server.init Nat) (storesFirst ++
      ⟨0, .recv (some seekChunk), .succeeds⟩ :: ⟨2, .recv (some [98, 10]), .succeeds⟩ ::
        answers)).map fun s => ((s.local_ 0).pc.served, (s.local_ 2).pc.served)) =
      some (true, true) := by decide
  obtain ⟨s', hs', hserved⟩ := Option.map_eq_some_iff.mp hall
  obtain ⟨hserved0, hserved2⟩ := Prod.mk.inj hserved
  obtain ⟨s, hs, hrest⟩ := Lts.run_append_eq_some.mp hs'
  obtain ⟨s₁, hs₁, hrest⟩ := Lts.run_cons_eq_some.mp hrest
  obtain ⟨s₂, hs₂, hrun⟩ := Lts.run_cons_eq_some.mp hrest
  have hsmooth : SmoothTrace answers := by
    unfold SmoothTrace
    decide
  have hlast : ∀ l ∈ answers, ∀ c', l.ev ≠ .recv (some c') := by
    simp [answers, calls]
  have h0 := response_snapshot kernel64 storesFirst
    (⟨2, .recv (some [98, 10]), .succeeds⟩ :: answers) 0 seekChunk .succeeds s s₁ s' hs hs₁ hrest
    (List.forall_mem_cons.mpr ⟨by decide, hsmooth⟩)
    (List.forall_mem_cons.mpr ⟨by simp, fun l hl _ => hlast l hl⟩)
  have hs₂' : (server Nat kernel64).lts.run (server.init Nat)
      (storesFirst ++ [⟨0, .recv (some seekChunk), .succeeds⟩]) = some s₁ :=
    Lts.run_snoc_eq_some.mpr ⟨s, hs, hs₁⟩
  have h2 := response_snapshot kernel64 _ answers 2 [98, 10] .succeeds s₁ s₂ s' hs₂' hs₂ hrun hsmooth
    fun l hl _ => hlast l hl
  obtain ⟨m, m', hsection, -, hsent, -⟩ := (h0.1 hserved0).2.1 ⟨0, 1⟩ ⟨_, rfl⟩ (by decide)
  obtain ⟨n, n', hwrites, -, hsent'⟩ := (h2.1 hserved2).1 (by decide) (by decide)
  exact ⟨s, s₁, s₂, s', hs, hs₁, hs₂, hrun, by decide, by decide, ⟨m, m', hsection, hsent⟩, n, n',
    hwrites, hsent'⟩

end Aesd
