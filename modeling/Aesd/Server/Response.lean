import Aesd.Server.Session

/-!
# What a client gets back

A critical section alone (`Session`), without failures (`Smooth`):

* `Serving`: in the response loop, what was sent, what is in the buffer and what comes after the file
  position make up the response. `Serving.next` is the step lemma, `Serving.run` the run lemma; every
  step lowers `cost`, so the loop ends, and `Serving.exists_next` never gets stuck.
* `session_data`, `session_seek`: a whole critical section for a chunk of data and for a seek.
-/

namespace Aesd

variable {K : Kernel} {s s' : Session} {l : Sys × Env} {ls : List (Sys × Env)} {g : LineLog UInt8}

/-- The call does not fail: no lock, allocation or open is refused, the sockets and the device accept
what is written (possibly in part), and the kernel does not interrupt or fault a seek. A seek may be
refused for its position. -/
def Smooth : Sys × Env → Prop
  | (.malloc ok, _) | (.lock _ ok, _) | (.open ok, _) | (.lseek ok, _) => ok = true
  | (.write _ ret, _) | (.send _ ret, _) => 0 < ret
  | (.read bs, _) => bs.isSome = true
  | (.ioctl _ _, env) => env.call.interrupted = false ∧ env.call.copyFails = false
  | _ => True

instance : DecidablePred Smooth := fun l => by
  unfold Smooth
  split <;> infer_instance

/-- The bytes that a call sent to the client. -/
def sentBytes : Sys → Bytes
  | .send bs ret => bs.take ret.toNat
  | _ => []

/-- The bytes that a sequence of calls sent to the client. -/
def sentOf (ls : List (Sys × Env)) : Bytes := (ls.map fun l => sentBytes l.1).flatten

@[simp] theorem sentOf_nil : sentOf [] = [] := rfl

@[simp] theorem sentOf_cons : sentOf (l :: ls) = sentBytes l.1 ++ sentOf ls := by simp [sentOf]

theorem sentOf_append (xs ys : List (Sys × Env)) : sentOf (xs ++ ys) = sentOf xs ++ sentOf ys := by
  simp [sentOf]

/-! ## Calls that do not fail -/

/-- A write that does not fail writes everything. -/
theorem deviceCall_write {env : Env} {d d' : Driver} {fPos fPos' ret : Int} {bs : Bytes}
    (h : Holds K d g) (hc : deviceCall K env d fPos (.write bs ret) = some (d', fPos'))
    (hret : 0 < ret) : ret = bs.length ∧ Holds K d' (g.write isNewline bs) ∧ fPos' = fPos := by
  simp only [deviceCall] at hc
  generalize hw : aesdWrite K env.write d (some bs) = res at hc
  obtain ⟨r, d₁⟩ := res
  simp only [Option.ite_none_right_eq_some, Option.some.injEq, Prod.mk.injEq] at hc
  obtain ⟨rfl, rfl, rfl⟩ := hc
  obtain ⟨h1, h2⟩ := h.aesdWrite (w := ⟨bs, env.write⟩) hw
  have hr : ¬ r < 0 := by
    rw [← sysResult_neg_iff]
    omega
  rcases h2 with ⟨hneg, -⟩ | hlen
  · exact absurd hneg hr
  · rw [logCall, if_neg hr] at h1
    refine ⟨?_, h1, rfl⟩
    rw [sysResult, if_neg (by unfold erestartsys; omega)]
    exact hlen

/-- A read that does not fail gives what comes next, and something before the end. -/
theorem deviceCall_read {env : Env} {d d' : Driver} {fPos' : Int} {q : Nat} {bs : Bytes}
    (h : Holds K d g) (hq : q ≤ d.commands.flatten.length)
    (hc : deviceCall K env d q (.read (some bs)) = some (d', fPos')) :
    d' = d ∧ fPos' = (q + bs.length : Nat) ∧ bs <+: d.commands.flatten.drop q ∧
      (bs = [] → q = d.commands.flatten.length) := by
  obtain ⟨v, hr, -⟩ := h.rep
  have hle := hr.sum_sizes_le
  rw [hr.commands_eq] at hq ⊢
  have h63 := K.mem_lt_loff
  have hmem := K.two_mul_mem_lt
  obtain ⟨hd, hres⟩ := aesdRead_spec env.call (some (bufferSize - 1)) hr h.unlocked
    (loffT_of_lt (n := q) (by omega))
  simp only [deviceCall, hd, Option.ite_none_right_eq_some, Option.some.injEq, Prod.mk.injEq] at hc
  obtain ⟨hbs, rfl, hp⟩ := hc
  rcases hres with ⟨hneg, -⟩ | ⟨count, hcount, -, -, hbytes, hret, hpos⟩
  · rw [readBytes, if_pos hneg] at hbs
    cases hbs
  · cases hcount
    rw [readBytes, if_neg (by omega)] at hbs
    obtain rfl := Option.some.inj hbs
    rw [Kernel.sizeOfLoff_of_lt (by omega)] at hbytes
    rw [← hp, hpos, hbytes]
    rcases Nat.lt_or_ge q v.commands.flatten.length with hlt | hge
    · obtain ⟨h1, h2, h3⟩ := readAt_of_lt hlt (show 0 < bufferSize - 1 by decide)
      have hlen := h3.length_le
      rw [List.length_drop] at hlen
      refine ⟨rfl, ?_, h3, fun h0 => ?_⟩
      · rw [← Int.natCast_add, loffT_of_lt (by omega)]
      · rw [h0] at h1
        cases h1
    · rw [readAt_of_le hge]
      refine ⟨rfl, loffT_of_lt (n := q) (by omega), List.nil_prefix, fun _ => by omega⟩

/-! ## The response loop -/

/-- In the response loop, over the contents `D` of the device: `sent`, the rest of the buffer and the
contents from the file position make up the response `target`. After the loop it is sent. -/
def Serving (D target : Bytes) (after : After) (s : Session) (sent : Bytes) : Prop :=
  match s.client.pc with
  | .read a => a = after ∧ ∃ q : Nat, s.fPos = q ∧ q ≤ D.length ∧ sent ++ D.drop q = target
  | .send a bs written => a = after ∧ written < bs.length ∧
    ∃ q : Nat, s.fPos = q ∧ q ≤ D.length ∧ sent ++ (bs.drop written ++ D.drop q) = target
  | .close a | .unlock a => a = after ∧ sent = target
  | _ => False

/-- An upper bound for the calls until the unlock. -/
def cost (D : Bytes) (s : Session) : Nat :=
  match s.client.pc with
  | .read _ => 2 * (D.length - s.fPos.toNat) + 2
  | .send _ bs written => (bs.length - written) + 2 * (D.length - s.fPos.toNat) + 2
  | .close _ => 1
  | _ => 0

variable {D target sent : Bytes} {after : After}

/-- A call in the response loop: the response stays, the device stays, the cost falls. -/
theorem Serving.next (hs : Serving D target after s sent) (hg : Holds K s.driver g)
    (hD : s.driver.commands.flatten = D) (hl : Smooth l) (hk : l.1 ≠ .unlock .file)
    (h : (Session.lts K).next s l = some s') :
    Serving D target after s' (sent ++ sentBytes l.1) ∧ s'.driver = s.driver ∧
      cost D s' < cost D s := by
  obtain ⟨ev, env⟩ := l
  obtain ⟨hc, hd⟩ := Session.next_eq_some.mp h
  obtain ⟨hstep, -⟩ := Client.next_eq_some hc
  unfold Serving at hs
  split at hs
  · -- a read
    rename_i a hpc
    obtain ⟨rfl, q, hq, hle, ht⟩ := hs
    rw [hpc] at hstep
    generalize hpc' : s'.client.pc = pc' at hstep
    cases hstep with
    | @read _ bs hfits =>
      obtain ⟨bs, rfl⟩ := Option.isSome_iff_exists.mp hl
      simp only [hq] at hd
      obtain ⟨h1, h2, h3, h4⟩ := deviceCall_read hg (hD ▸ hle) hd
      rw [hD] at h3 h4
      by_cases hbs : bs = []
      · subst hbs
        simp only [Client.afterRead, ↓reduceIte] at hpc'
        refine ⟨?_, h1, by simp [cost, hpc, hpc']⟩
        simp only [Serving, hpc', sentBytes, List.append_nil, true_and]
        rw [← ht, h4 rfl, List.drop_length, List.append_nil]
      · simp only [Client.afterRead, if_neg hbs] at hpc'
        have hpos : 0 < bs.length := List.length_pos_iff.mpr hbs
        have hlen := h3.length_le
        rw [List.length_drop] at hlen
        refine ⟨?_, h1, ?_⟩
        · simp only [Serving, hpc', sentBytes, List.append_nil, true_and]
          refine ⟨hpos, q + bs.length, h2, by omega, ?_⟩
          rw [← ht, List.drop_zero, ← List.drop_drop, List.prefix_iff_eq_append.mp h3]
        · simp only [cost, hpc, hpc', h2, hq, Int.toNat_natCast]
          omega
  · -- a send
    rename_i a bs written hpc
    obtain ⟨rfl, hw, q, hq, hle, ht⟩ := hs
    rw [hpc] at hstep
    generalize hpc' : s'.client.pc = pc' at hstep
    cases hstep with
    | @send _ _ _ ret hret =>
      have hpos : 0 < ret := hl
      obtain ⟨n, rfl⟩ : ∃ n : Nat, ret = n := ⟨ret.toNat, by omega⟩
      rw [List.length_drop] at hret
      simp only [deviceCall, Option.some.injEq, Prod.mk.injEq] at hd
      obtain ⟨hd, hp⟩ := hd
      have hsplit : sent ++ (bs.drop written).take n ++ (bs.drop (written + n) ++ D.drop q) =
          target := by
        rw [← ht, ← List.drop_drop, ← List.append_assoc, List.append_assoc sent,
          List.take_append_drop, List.append_assoc]
      by_cases hmore : written + n < bs.length
      · rw [Client.writeAllStep_of_lt (by omega) hmore] at hpc'
        simp only [Client.afterSendAll] at hpc'
        refine ⟨?_, hd.symm, ?_⟩
        · simp only [Serving, hpc', sentBytes, true_and, Int.toNat_natCast]
          exact ⟨hmore, q, by rw [← hp, hq], hle, hsplit⟩
        · simp only [cost, hpc, hpc', ← hp]
          omega
      · have hdone : written + n = bs.length := by omega
        rw [Client.writeAllStep_of_eq (by omega) hdone] at hpc'
        simp only [Client.afterSendAll, ↓reduceIte] at hpc'
        refine ⟨?_, hd.symm, ?_⟩
        · simp only [Serving, hpc', sentBytes, true_and, Int.toNat_natCast]
          refine ⟨q, by rw [← hp, hq], hle, ?_⟩
          rw [← hsplit, hdone, List.drop_length, List.nil_append]
        · simp only [cost, hpc, hpc', ← hp]
          omega
  · -- the close
    rename_i a hpc
    obtain ⟨rfl, ht⟩ := hs
    rw [hpc] at hstep
    generalize hpc' : s'.client.pc = pc' at hstep
    cases hstep with
    | close =>
      simp only [deviceCall, Option.some.injEq, Prod.mk.injEq] at hd
      refine ⟨?_, hd.1.symm, by simp [cost, hpc, hpc']⟩
      simp only [Serving, hpc', sentBytes, List.append_nil, true_and]
      exact ht
  · -- the unlock is not in the section
    rename_i a hpc
    rw [hpc] at hstep
    generalize hpc' : s'.client.pc = pc' at hstep
    cases hstep with
    | unlock => exact absurd rfl hk
  · cases hs

/-- A run of the response loop. -/
theorem Serving.run (hs : Serving D target after s sent) (hg : Holds K s.driver g)
    (hD : s.driver.commands.flatten = D) (hl : ∀ l ∈ ls, Smooth l ∧ l.1 ≠ .unlock .file)
    (h : (Session.lts K).run s ls = some s') :
    Serving D target after s' (sent ++ sentOf ls) ∧ s'.driver = s.driver ∧
      cost D s' + ls.length ≤ cost D s := by
  induction ls generalizing s sent with
  | nil =>
    cases h
    exact ⟨by simpa using hs, rfl, Nat.le_refl _⟩
  | cons l ls ih =>
    obtain ⟨m, h1, h2⟩ := Lts.run_cons_eq_some.mp h
    obtain ⟨hl1, hl2⟩ := hl l (by simp)
    obtain ⟨hm, hd, hcost⟩ := hs.next hg hD hl1 hl2 h1
    obtain ⟨hs', hd', hcost'⟩ := ih hm (hd ▸ hg) (hd ▸ hD) (fun l hl' => hl l (by simp [hl'])) h2
    refine ⟨?_, hd'.trans hd, ?_⟩
    · rwa [sentOf_cons, ← List.append_assoc]
    · rw [List.length_cons]
      omega

/-- Between the file position and the unlock there is always a call that does not fail. -/
theorem Serving.exists_next (hs : Serving D target after s sent) (hg : Holds K s.driver g)
    (hpos : loffT s.fPos = s.fPos) (hloop : s.client.pc.responding = true) :
    ∃ l, Smooth l ∧ (∀ m ok, l.1 ≠ .lock m ok) ∧ (∀ m, l.1 ≠ .unlock m) ∧
      ((Session.lts K).next s l).isSome := by
  obtain ⟨⟨pc, node⟩, driver, fPos⟩ := s
  cases pc with
  | read a =>
    obtain ⟨v, hr, -⟩ := hg.rep
    obtain ⟨-, hres⟩ := aesdRead_spec Env.succeeds.call (some (bufferSize - 1)) hr hg.unlocked hpos
    generalize hread : aesdRead K Env.succeeds.call driver fPos (some (bufferSize - 1)) = r at hres
    obtain ⟨res, d⟩ := r
    have hbytes : Client.fits res.bytes ∧ ¬ res.retval < 0 := by
      rcases hres with ⟨-, -, -, hfail⟩ | ⟨count, hcount, -, -, hb, hret, -⟩
      · simp only at hfail
        generalize res.retval = x at hfail
        cases hfail with
        | interrupted h => cases h
        | faults _ h => cases h
      · cases hcount
        simp only at hb hret
        refine ⟨?_, by omega⟩
        rw [Client.fits, hb]
        exact length_readAt_le _ _ _
    refine ⟨(.read (some res.bytes), .succeeds), rfl, by simp, by simp, ?_⟩
    simp [Session.lts, Client.lts, Client.nextPc, deviceCall, hread, readBytes, hbytes]
  | send a bs written =>
    have hlt : written < bs.length := hs.2.1
    refine ⟨(.send (bs.drop written) ((bs.drop written).length : Nat), .succeeds), ?_, by simp,
      by simp, ?_⟩
    · show (0 : Int) < _
      rw [List.length_drop]
      omega
    · simp [Session.lts, Client.lts, Client.nextPc, deviceCall]
  | _ => cases hloop

/-! ## Whole critical sections -/

/-- A call at a known place. -/
theorem Session.step {pc : Pc} (hpc : s.client.pc = pc) (h : (Session.lts K).next s l = some s') :
    Client.Step .charDevice s.client.node pc l.1 s'.client.pc ∧
      deviceCall K l.2 s.driver s.fPos l.1 = some (s'.driver, s'.fPos) := by
  obtain ⟨hc, hd⟩ := Session.next_eq_some.mp h
  exact ⟨hpc ▸ (Client.next_eq_some hc).1, hd⟩

/-- A run that leaves a place begins with a call. -/
theorem exists_cons {pc : Pc} (hpc : s.client.pc = pc) (ha : pc.answering = false)
    (ha' : s'.client.pc.answering = true) (h : (Session.lts K).run s ls = some s') :
    ∃ l ls' m, ls = l :: ls' ∧ (Session.lts K).next s l = some m ∧
      (Session.lts K).run m ls' = some s' := by
  cases ls with
  | nil =>
    cases h
    rw [hpc, ha] at ha'
    cases ha'
  | cons l ls =>
    obtain ⟨m, h1, h2⟩ := Lts.run_cons_eq_some.mp h
    exact ⟨l, ls, m, rfl, h1, h2⟩

/-- Opening the device. -/
theorem Session.open_step {pc : Pc} (pc' : Pc) (hpc : s.client.pc = pc)
    (hopen : ∀ {node ev pc''}, Client.Step .charDevice node pc ev pc'' → Smooth (ev, l.2) →
      ev = .open true ∧ pc'' = pc')
    (hl : Smooth l) (h : (Session.lts K).next s l = some s') :
    sentBytes l.1 = [] ∧ s'.client.pc = pc' ∧ s'.driver = s.driver ∧ s'.fPos = (0 : Nat) := by
  obtain ⟨hstep, hd⟩ := Session.step hpc h
  obtain ⟨hev, hpc'⟩ := hopen hstep hl
  rw [hev] at hd
  simp only [deviceCall, ↓reduceIte, Option.some.injEq, Prod.mk.injEq] at hd
  exact ⟨by rw [hev]; rfl, hpc', hd.1.symm, hd.2.symm⟩

/-- The `write_all` of a chunk. -/
theorem Session.write_step {c : Bytes} (hpc : s.client.pc = .write c 0) (hc : c ≠ [])
    (hg : Holds K s.driver g) (hl : Smooth l) (h : (Session.lts K).next s l = some s') :
    l.1 = .write c c.length ∧ s'.client.pc = Client.afterWrite .charDevice c ∧
      Holds K s'.driver (g.write isNewline c) := by
  obtain ⟨ev, env⟩ := l
  obtain ⟨hstep, hd⟩ := Session.step hpc h
  generalize s'.client.pc = pc' at hstep ⊢
  cases hstep with
  | @write _ _ ret hret =>
    obtain ⟨rfl, hg', -⟩ := deviceCall_write hg hd hl
    rw [List.drop_zero] at hg' ⊢
    rw [Client.writeAllStep_of_eq (List.length_pos_iff.mpr hc) (Nat.zero_add _)]
    exact ⟨rfl, if_pos rfl, hg'⟩

/-- A `close`. -/
theorem Session.close_step {pc : Pc} (pc' : Pc) (hpc : s.client.pc = pc)
    (hclose : ∀ {node ev pc''}, Client.Step .charDevice node pc ev pc'' → ev = .close ∧ pc'' = pc')
    (h : (Session.lts K).next s l = some s') :
    sentBytes l.1 = [] ∧ s'.client.pc = pc' ∧ s'.driver = s.driver := by
  obtain ⟨hstep, hd⟩ := Session.step hpc h
  obtain ⟨hev, hpc'⟩ := hclose hstep
  rw [hev] at hd
  simp only [deviceCall, Option.some.injEq, Prod.mk.injEq] at hd
  exact ⟨by rw [hev]; rfl, hpc', hd.1.symm⟩

/-- At the end of a critical section that answers nothing. -/
theorem session_close (hpc : s.client.pc = .close after) (hl : ∀ l ∈ ls, l.1 ≠ .unlock .file)
    (h : (Session.lts K).run s ls = some s') :
    s'.driver = s.driver ∧ sentOf ls = [] ∧
      (s'.client.pc = .close after ∨ s'.client.pc = .unlock after) := by
  cases ls with
  | nil =>
    cases h
    exact ⟨rfl, rfl, .inl hpc⟩
  | cons l ls =>
    obtain ⟨m, h1, h2⟩ := Lts.run_cons_eq_some.mp h
    obtain ⟨hev, hpc', hd⟩ := Session.close_step (.unlock after) hpc
      (fun hs => by cases hs with | close => exact ⟨rfl, rfl⟩) h1
    cases ls with
    | nil =>
      cases h2
      exact ⟨hd, by simp [hev], .inr hpc'⟩
    | cons l' ls =>
      obtain ⟨m', h3, -⟩ := Lts.run_cons_eq_some.mp h2
      obtain ⟨hstep, -⟩ := Session.step hpc' h3
      have hne := hl l' (by simp)
      generalize l'.1 = ev at hstep hne
      generalize m'.client.pc = pc' at hstep
      cases hstep with
      | unlock => exact absurd rfl hne

/-- The critical section for a chunk of data, once it answers: the chunk was written by its second
call, and the response is all that the device retained then, or nothing for a chunk without a
newline. -/
theorem session_data {c : Bytes} (hpc : s.client.pc = .dataOpen c) (hc : c ≠ [])
    (hg : Holds K s.driver g) (hl : ∀ l ∈ ls, Smooth l ∧ l.1 ≠ .unlock .file)
    (ha : s'.client.pc.answering = true) (h : (Session.lts K).run s ls = some s') :
    ∃ o w rest m, ls = o :: w :: rest ∧ w.1 = .write c c.length ∧
      (Session.lts K).run s [o, w] = some m ∧ Holds K m.driver (g.write isNewline c) ∧
      s'.driver = m.driver ∧
      if c.any isNewline then
        Serving m.driver.commands.flatten m.driver.commands.flatten .cleanup s' (sentOf ls) ∧
          ls.length ≤ 2 * m.driver.commands.flatten.length + 6
      else sentOf ls = [] ∧ (s'.client.pc = .close .recv ∨ s'.client.pc = .unlock .recv) := by
  obtain ⟨o, ls, m₁, rfl, h1, h⟩ := exists_cons hpc rfl ha h
  obtain ⟨ho, hpc₁, hd₁, -⟩ := Session.open_step (.write c 0) hpc
    (fun hs hsm => by cases hs with | dataOpen => exact ⟨rfl, rfl⟩ | dataOpenFails => cases hsm)
    (hl o (by simp)).1 h1
  obtain ⟨w, ls, m, rfl, h2, h⟩ := exists_cons hpc₁ rfl ha h
  obtain ⟨hw, hpc₂, hg'⟩ := Session.write_step hpc₁ hc (hd₁ ▸ hg) (hl w (by simp)).1 h2
  have hrun : (Session.lts K).run s [o, w] = some m :=
    Lts.run_cons_eq_some.mpr ⟨m₁, h1, Lts.run_cons_eq_some.mpr ⟨m, h2, rfl⟩⟩
  have hsent : sentOf (o :: w :: ls) = sentOf ls := by
    rw [sentOf_cons, sentOf_cons, ho, hw]
    rfl
  rw [hsent]
  unfold Client.afterWrite at hpc₂
  cases hn : c.any isNewline with
  | false =>
    simp only [hn, Bool.false_eq_true, ↓reduceIte] at hpc₂ ⊢
    obtain ⟨hd, hs, hpc'⟩ := session_close hpc₂ (fun l hl' => (hl l (by simp [hl'])).2) h
    exact ⟨o, w, ls, m, rfl, hw, hrun, hg', hd, hs, hpc'⟩
  | true =>
    simp only [hn, ↓reduceIte] at hpc₂ ⊢
    -- the file is closed and opened again, at position 0
    obtain ⟨x, ls, m₂, rfl, h3, h⟩ := exists_cons hpc₂ rfl ha h
    obtain ⟨hx, hpc₃, hd₃⟩ := Session.close_step (.reopen) hpc₂
      (fun hs => by cases hs with | reclose => exact ⟨rfl, rfl⟩) h3
    obtain ⟨y, ls, m₃, rfl, h4, h⟩ := exists_cons hpc₃ rfl ha h
    obtain ⟨hy, hpc₄, hd₄, hp₄⟩ := Session.open_step (.read .cleanup) hpc₃
      (fun hs hsm => by cases hs with | reopen => exact ⟨rfl, rfl⟩ | reopenFails => cases hsm)
      (hl y (by simp)).1 h4
    have hd : m₃.driver = m.driver := hd₄.trans hd₃
    have hstart : Serving m.driver.commands.flatten m.driver.commands.flatten .cleanup m₃ [] := by
      simp only [Serving, hpc₄, true_and]
      exact ⟨0, hp₄, Nat.zero_le _, by simp⟩
    obtain ⟨h5, h6, h7⟩ := hstart.run (hd ▸ hg') (by rw [hd]) (fun l hl' => hl l (by simp [hl'])) h
    refine ⟨o, w, _, m, rfl, hw, hrun, hg', h6.trans hd, ?_, ?_⟩
    · rw [sentOf_cons, sentOf_cons, hx, hy]
      exact h5
    · simp only [cost, hpc₄, hp₄, Int.toNat_natCast] at h7
      simp only [List.length_cons]
      omega

/-- The `ioctl` of a seek: it finds the position, or the critical section ends. -/
theorem Session.ioctl_step {k : AesdSeekto} (hpc : s.client.pc = .ioctl k) (hg : Holds K s.driver g)
    (hl : Smooth l) (h : (Session.lts K).next s l = some s') :
    sentBytes l.1 = [] ∧ s'.driver = s.driver ∧
      match seekAt s.driver.commands k.writeCmd.toNat k.writeCmdOffset.toNat with
      | none => s'.client.pc = .close .cleanup
      | some p => s'.client.pc = .read .recv ∧ s'.fPos = p := by
  obtain ⟨ev, env⟩ := l
  obtain ⟨hstep, hd⟩ := Session.step hpc h
  obtain ⟨v, hr, -⟩ := hg.rep
  rw [hr.commands_eq]
  -- what the driver answers
  have hioctl : ∀ {ok}, ev = .ioctl k ok → s'.driver = s.driver ∧
      match seekAt v.commands k.writeCmd.toNat k.writeCmdOffset.toNat with
      | none => ok = false
      | some p => ok = true ∧ s'.fPos = p := by
    rintro ok rfl
    simp only [deviceCall, aesdUnlockedIoctl_eq s.fPos k hr hg.unlocked hl.1 hl.2] at hd
    cases hs : seekAt v.commands k.writeCmd.toNat k.writeCmdOffset.toNat with
    | none =>
      simp only [hs, Option.ite_none_right_eq_some, Option.some.injEq, Prod.mk.injEq] at hd
      exact ⟨hd.2.1.symm, by simpa [einval] using hd.1⟩
    | some p =>
      simp only [hs, Option.ite_none_right_eq_some, Option.some.injEq, Prod.mk.injEq] at hd
      exact ⟨hd.2.1.symm, by simpa using hd.1, hd.2.2.symm⟩
  generalize s'.client.pc = pc' at hstep ⊢
  cases hstep with
  | ioctl =>
    obtain ⟨h1, h2⟩ := hioctl rfl
    refine ⟨rfl, h1, ?_⟩
    split at h2
    · cases h2
    · exact ⟨rfl, h2.2⟩
  | ioctlFails =>
    obtain ⟨h1, h2⟩ := hioctl rfl
    refine ⟨rfl, h1, ?_⟩
    split at h2
    · rfl
    · cases h2.1

/-- The critical section for a seek, once it answers: the response is what the device retains from the
position on, or nothing if there is no such position. The device stays as it was. -/
theorem session_seek {k : AesdSeekto} (hpc : s.client.pc = .seekOpen k) (hg : Holds K s.driver g)
    (hl : ∀ l ∈ ls, Smooth l ∧ l.1 ≠ .unlock .file) (ha : s'.client.pc.answering = true)
    (h : (Session.lts K).run s ls = some s') :
    s'.driver = s.driver ∧
      match seekAt s.driver.commands k.writeCmd.toNat k.writeCmdOffset.toNat with
      | none => sentOf ls = [] ∧ (s'.client.pc = .close .cleanup ∨ s'.client.pc = .unlock .cleanup)
      | some p => Serving s.driver.commands.flatten (s.driver.commands.flatten.drop p) .recv s'
          (sentOf ls) ∧ ls.length ≤ 2 * s.driver.commands.flatten.length + 4 := by
  obtain ⟨o, ls, m₁, rfl, h1, h⟩ := exists_cons hpc rfl ha h
  obtain ⟨ho, hpc₁, hd₁, -⟩ := Session.open_step (.ioctl k) hpc
    (fun hs hsm => by cases hs with | seekOpen => exact ⟨rfl, rfl⟩ | seekOpenFails => cases hsm)
    (hl o (by simp)).1 h1
  obtain ⟨i, ls, m, rfl, h2, h⟩ := exists_cons hpc₁ rfl ha h
  obtain ⟨hi, hd, hres⟩ := Session.ioctl_step hpc₁ (hd₁ ▸ hg) (hl i (by simp)).1 h2
  rw [hd₁] at hd hres
  rw [sentOf_cons, sentOf_cons, ho, hi, List.nil_append, List.nil_append]
  cases hs : seekAt s.driver.commands k.writeCmd.toNat k.writeCmdOffset.toNat with
  | none =>
    rw [hs] at hres
    obtain ⟨h3, h4, h5⟩ := session_close hres (fun l hl' => (hl l (by simp [hl'])).2) h
    exact ⟨h3.trans hd, h4, h5⟩
  | some p =>
    rw [hs] at hres
    obtain ⟨hpc₂, hp⟩ := hres
    have hstart : Serving s.driver.commands.flatten (s.driver.commands.flatten.drop p) .recv m [] := by
      simp only [Serving, hpc₂, true_and]
      exact ⟨p, hp, Nat.le_of_lt (drop_seekAt hs).1, rfl⟩
    obtain ⟨h5, h6, h7⟩ := hstart.run (hd ▸ hg) (by rw [hd]) (fun l hl' => hl l (by simp [hl'])) h
    refine ⟨h6.trans hd, h5, ?_⟩
    simp only [cost, hpc₂, hp, Int.toNat_natCast] at h7
    simp only [List.length_cons]
    omega

end Aesd
