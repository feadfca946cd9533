import Aesd.Driver.Statements

/-!
# File operations that run at the same time

The file operations of any number of open files, one statement at a time, in any interleaving. The
lock is `dev.lock`: a call waits for it, and may be interrupted there.

* `callsLts`: the interleavings. `completes`: what a step completes.
* `calls_linearizable`: the calls, in the order of their returns, give what they give as single steps.
* `call_completes`: a call in progress can always return, after a bounded number of statements.
-/

namespace Aesd

/-! ## Interleaved calls -/

/-- A call in progress: before the lock, at the lock, or under it. -/
inductive CallState where
  | entering (c : FileCall)
  | waiting (c : FileCall)
  | holding (c : FileCall) (pc : CallPc)
  deriving DecidableEq

/-- The device, and every open file with its position and the call in progress on it. -/
structure Calls (φ : Type*) where
  driver : Driver
  fPos : φ → Option Int
  call : φ → Option CallState

/-- A step: `aesd_open`, the begin of a call, a statement of the call in progress, or
`aesd_release`. -/
inductive CallEvent (φ : Type*) where
  | opened (f : φ)
  | begins (f : φ) (c : FileCall)
  | steps (f : φ)
  | released (f : φ)
  deriving DecidableEq

variable {φ : Type*} [DecidableEq φ]

namespace Calls

/-- The device just initialised, before the first `open`. -/
def init : Calls φ := { driver := aesdInit, fPos := fun _ => none, call := fun _ => none }

/-- The call on `f` goes on as `cs`. -/
def setCall (st : Calls φ) (f : φ) (cs : CallState) : Calls φ :=
  { st with call := Function.update st.call f (some cs) }

/-- The call on `f` returns. -/
def returns (st : Calls φ) (f : φ) (res : ReadResult) : Calls φ :=
  { st with
    fPos := Function.update st.fPos f (some res.fPos)
    call := Function.update st.call f none }

section

variable (st : Calls φ) (f : φ) (cs : CallState) (res : ReadResult)

@[simp] theorem setCall_driver : (st.setCall f cs).driver = st.driver := rfl

@[simp] theorem setCall_fPos : (st.setCall f cs).fPos = st.fPos := rfl

@[simp] theorem setCall_call : (st.setCall f cs).call = Function.update st.call f (some cs) := rfl

@[simp] theorem returns_driver : (st.returns f res).driver = st.driver := rfl

@[simp] theorem returns_fPos :
    (st.returns f res).fPos = Function.update st.fPos f (some res.fPos) := rfl

@[simp] theorem returns_call : (st.returns f res).call = Function.update st.call f none := rfl

end

/-- A statement of the call `cs` on the file `f`, which is at `p`. -/
def callStep (K : Kernel) (st : Calls φ) (f : φ) (p : Int) : CallState → Option (Calls φ)
  | .entering c =>
    match c.refused with
    | some e => some (st.returns f ⟨e, [], p⟩)
    | none => some (st.setCall f (.waiting c))
  | .waiting c =>
    if c.interrupted then some (st.returns f ⟨-erestartsys, [], p⟩)
    else if st.driver.dev.lock then none
    else some ({ st with driver := st.driver.mutexLock }.setCall f (.holding c c.start))
  | .holding c pc =>
    match pc.step K p st.driver with
    | .goesOn pc' s' => some ({ st with driver := s' }.setCall f (.holding c pc'))
    | .returns res s' => some ({ st with driver := s' }.returns f res)

/-- The result of the call `cs` on a file at `p`, if it returns in this statement. -/
def result (K : Kernel) (s : Driver) (p : Int) : CallState → Option (FileCall × ReadResult)
  | .entering c => c.refused.map fun e => (c, ⟨e, [], p⟩)
  | .waiting c => if c.interrupted then some (c, ⟨-erestartsys, [], p⟩) else none
  | .holding c pc =>
    match pc.step K p s with
    | .goesOn _ _ => none
    | .returns res _ => some (c, res)

end Calls

/-- All interleavings of calls on open files, statement by statement. -/
def callsLts (K : Kernel) : Lts (Calls φ) (CallEvent φ) where
  next st
    | .opened f =>
      match st.fPos f with
      | some _ => none
      | none => some { st with fPos := Function.update st.fPos f (some 0) }
    | .begins f c =>
      match st.fPos f, st.call f with
      | some _, none => some (st.setCall f (.entering c))
      | _, _ => none
    | .steps f =>
      match st.fPos f, st.call f with
      | some p, some cs => st.callStep K f p cs
      | _, _ => none
    | .released f =>
      match st.fPos f, st.call f with
      | some _, none => some { st with fPos := Function.update st.fPos f none }
      | _, _ => none

/-- What a step completes: a call, where it returns. -/
def completes (K : Kernel) (st : Calls φ) : CallEvent φ → Option (FileEvent φ)
  | .opened f => some (.opened f)
  | .begins _ _ => none
  | .steps f =>
    match st.fPos f, st.call f with
    | some p, some cs => (Calls.result K st.driver p cs).map fun r => .called f r.1 r.2
    | _, _ => none
  | .released f => some (.released f)

variable {K : Kernel} {st st' : Calls φ} {a : Files φ} {e : CallEvent φ} {es : List (CallEvent φ)}
  {f : φ} {p : Int} {cs : CallState}

/-! ## Steps -/

theorem callsLts_steps : (callsLts K).next st (.steps f) = some st' ↔
    ∃ p cs, st.fPos f = some p ∧ st.call f = some cs ∧ st.callStep K f p cs = some st' := by
  simp only [callsLts]
  cases st.fPos f with
  | none => simp
  | some p => cases st.call f <;> simp

theorem callsLts_begins {c : FileCall} : (callsLts K).next st (.begins f c) = some st' ↔
    st.fPos f ≠ none ∧ st.call f = none ∧ st' = st.setCall f (.entering c) := by
  simp only [callsLts]
  cases st.fPos f with
  | none => simp
  | some p => cases st.call f <;> simp [eq_comm]

theorem callsLts_opened : (callsLts K).next st (.opened f) = some st' ↔
    st.fPos f = none ∧ st' = { st with fPos := Function.update st.fPos f (some 0) } := by
  simp only [callsLts]
  cases st.fPos f <;> simp [eq_comm]

theorem callsLts_released : (callsLts K).next st (.released f) = some st' ↔
    st.fPos f ≠ none ∧ st.call f = none ∧
      st' = { st with fPos := Function.update st.fPos f none } := by
  simp only [callsLts]
  cases st.fPos f with
  | none => simp
  | some p => cases st.call f <;> simp [eq_comm]

/-- How a statement of a call can go. -/
inductive CallStep (K : Kernel) (st : Calls φ) (f : φ) (p : Int) :
    CallState → Calls φ → Option (FileCall × ReadResult) → Prop
  | refused {c : FileCall} {e : Int} (hr : c.refused = some e) :
    CallStep K st f p (.entering c) (st.returns f ⟨e, [], p⟩) (some (c, ⟨e, [], p⟩))
  | enters {c : FileCall} (hr : c.refused = none) :
    CallStep K st f p (.entering c) (st.setCall f (.waiting c)) none
  | interrupted {c : FileCall} (hi : c.interrupted = true) :
    CallStep K st f p (.waiting c) (st.returns f ⟨-erestartsys, [], p⟩)
      (some (c, ⟨-erestartsys, [], p⟩))
  | locks {c : FileCall} (hi : c.interrupted = false) (hl : st.driver.dev.lock = false) :
    CallStep K st f p (.waiting c)
      ({ st with driver := st.driver.mutexLock }.setCall f (.holding c c.start)) none
  | goesOn {c : FileCall} {pc pc' : CallPc} {s' : Driver}
      (hs : pc.step K p st.driver = .goesOn pc' s') :
    CallStep K st f p (.holding c pc) ({ st with driver := s' }.setCall f (.holding c pc')) none
  | returns {c : FileCall} {pc : CallPc} {res : ReadResult} {s' : Driver}
      (hs : pc.step K p st.driver = .returns res s') :
    CallStep K st f p (.holding c pc) ({ st with driver := s' }.returns f res) (some (c, res))

theorem callStep_cases (h : st.callStep K f p cs = some st') :
    CallStep K st f p cs st' (Calls.result K st.driver p cs) := by
  cases cs with
  | entering c =>
    simp only [Calls.callStep] at h
    simp only [Calls.result]
    split at h
    · rename_i e hr
      cases h
      rw [hr]
      exact .refused hr
    · rename_i hr
      cases h
      rw [hr]
      exact .enters hr
  | waiting c =>
    simp only [Calls.callStep] at h
    simp only [Calls.result]
    split at h
    · rename_i hi
      cases h
      rw [if_pos hi]
      exact .interrupted hi
    · rename_i hi
      split at h
      · cases h
      · rename_i hl
        cases h
        rw [if_neg hi]
        exact .locks (by simpa using hi) (by simpa using hl)
  | holding c pc =>
    simp only [Calls.callStep] at h
    simp only [Calls.result]
    split at h
    · rename_i hs
      cases h
      exact .goesOn hs
    · rename_i hs
      cases h
      exact .returns hs

/-! ## The calls as single steps -/

/-- The device in `st`, where the calls that have returned leave `s`: it is `s` while the lock is
free, and otherwise one call has come so far from `s`. -/
inductive AtLock (K : Kernel) (st : Calls φ) (s : Driver) : Prop
  | free (hlock : st.driver.dev.lock = false) (hnone : ∀ f c pc, st.call f ≠ some (.holding c pc))
      (hdriver : s = st.driver)
  | held {f : φ} {c : FileCall} {pc : CallPc} {p : Int} (hlock : st.driver.dev.lock = true)
      (hcall : st.call f = some (.holding c pc)) (hpos : st.fPos f = some p)
      (honly : ∀ f' c' pc', st.call f' = some (.holding c' pc') → f' = f)
      (hrank : pc.rank ≤ 260)
      (hfinish : (callMonitor K p).finish pc st.driver = c.run K s p)

/-- The calls in `st`, and what is left by those that have returned. -/
structure Atomic (K : Kernel) (st : Calls φ) (a : Files φ) : Prop where
  fPos : a.fPos = st.fPos
  device : AtLock K st a.driver
  waiting : ∀ f c, st.call f = some (.waiting c) → c.refused = none
  isOpen : ∀ f, st.call f ≠ none → st.fPos f ≠ none

namespace AtLock

variable {s s' : Driver}

omit [DecidableEq φ] in
/-- Steps that leave the device and the call under the lock as they are. -/
theorem frame (h : AtLock K st s) (hdriver : st'.driver = st.driver)
    (hcall : ∀ f c pc, st'.call f = some (.holding c pc) ↔ st.call f = some (.holding c pc))
    (hpos : ∀ f c pc, st.call f = some (.holding c pc) → st'.fPos f = st.fPos f) :
    AtLock K st' s := by
  cases h with
  | free hlock hnone hs =>
    refine .free (by rw [hdriver]; exact hlock) (fun f c pc hc => ?_) (by rw [hdriver]; exact hs)
    exact hnone f c pc ((hcall f c pc).mp hc)
  | held hlock hc hp honly hrank hfinish =>
    refine .held (by rw [hdriver]; exact hlock) ((hcall _ _ _).mpr hc)
      ((hpos _ _ _ hc).trans hp) (fun f' c' pc' hc' => ?_) hrank (by rw [hdriver]; exact hfinish)
    exact honly f' c' pc' ((hcall f' c' pc').mp hc')

omit [DecidableEq φ] in
/-- The call under the lock is the one that has come so far. -/
theorem of_holding {c : FileCall} {pc : CallPc} (h : AtLock K st s)
    (hc : st.call f = some (.holding c pc)) (hp : st.fPos f = some p) :
    st.driver.dev.lock = true ∧ (∀ f' c' pc', st.call f' = some (.holding c' pc') → f' = f) ∧
      pc.rank ≤ 260 ∧ (callMonitor K p).finish pc st.driver = c.run K s p := by
  cases h with
  | free hlock hnone hs => exact absurd hc (hnone f c pc)
  | held hlock hc' hp' honly hrank hfinish =>
    obtain rfl := honly f c pc hc
    rw [hc] at hc'
    cases hc'
    rw [hp] at hp'
    cases hp'
    exact ⟨hlock, honly, hrank, hfinish⟩

omit [DecidableEq φ] in
theorem of_unlocked (h : AtLock K st s) (hl : st.driver.dev.lock = false) :
    s = st.driver ∧ ∀ f c pc, st.call f ≠ some (.holding c pc) := by
  cases h with
  | free hlock hnone hs => exact ⟨hs, hnone⟩
  | held hlock =>
    rw [hl] at hlock
    cases hlock

end AtLock

/-- The call on `f` changes, and neither before nor after is it under the lock. -/
theorem holding_update {f' : φ} {c : FileCall} {pc : CallPc} {new : Option CallState}
    (hold : ∀ c pc, st.call f ≠ some (.holding c pc)) (hnew : ∀ c pc, new ≠ some (.holding c pc)) :
    Function.update st.call f new f' = some (.holding c pc) ↔
      st.call f' = some (.holding c pc) := by
  by_cases hf : f' = f
  · subst hf
    rw [Function.update_self]
    exact ⟨fun h => absurd h (hnew c pc), fun h => absurd h (hold c pc)⟩
  · rw [Function.update_of_ne hf]

theorem start_rank (c : FileCall) : c.start.rank ≤ 260 := by
  cases c <;> simp [FileCall.start, CallPc.rank]

/-- The call on `f`, an open file, goes on as `new`. -/
theorem Atomic.checks (h : Atomic K st a) (st' : Calls φ) {new : Option CallState} {q : Int}
    (hnew : ∀ c, new = some (.waiting c) → c.refused = none)
    (hcall : st'.call = Function.update st.call f new)
    (hpos : st'.fPos = Function.update st.fPos f (some q)) :
    (∀ f c, st'.call f = some (.waiting c) → c.refused = none) ∧
      ∀ f, st'.call f ≠ none → st'.fPos f ≠ none := by
  rw [hcall, hpos]
  constructor
  · exact (Function.forall_update_iff st.call
      fun _ cs => ∀ c, cs = some (.waiting c) → c.refused = none).mpr ⟨hnew, fun f' _ => h.waiting f'⟩
  · intro f' hc
    by_cases hf : f' = f
    · subst hf
      simp
    · rw [Function.update_of_ne hf] at hc ⊢
      exact h.isOpen f' hc

/-- A call that returns before it has the lock. -/
theorem Atomic.returns_early {c : FileCall} {err : Int} (h : Atomic K st a)
    (hp : st.fPos f = some p) (hcall : ∀ c pc, st.call f ≠ some (.holding c pc))
    (hrun : c.run K a.driver p = (⟨err, [], p⟩, a.driver)) :
    ∃ a', (filesLts K).next a (.called f c ⟨err, [], p⟩) = some a' ∧
      Atomic K (st.returns f ⟨err, [], p⟩) a' := by
  obtain ⟨hwaiting, hopen⟩ := h.checks (st.returns f ⟨err, [], p⟩) (by simp) rfl rfl
  refine ⟨{ a with fPos := Function.update a.fPos f (some p) },
    next_called.mpr ⟨p, h.fPos ▸ hp, hrun, rfl⟩, ?_, ?_, hwaiting, hopen⟩
  · rw [Calls.returns_fPos, h.fPos]
  · refine h.device.frame rfl (fun f' c' pc' => ?_) fun f' c' pc' hc' => ?_
    · rw [Calls.returns_call]
      exact holding_update hcall (by simp)
    · have hne : f' ≠ f := fun heq => hcall c' pc' (heq ▸ hc')
      rw [Calls.returns_fPos, Function.update_of_ne hne]

/-- A statement of a call. -/
theorem Atomic.callStep {out : Option (FileCall × ReadResult)} (h : Atomic K st a)
    (hp : st.fPos f = some p) (hcall : st.call f = some cs) (hs : CallStep K st f p cs st' out) :
    (out = none → Atomic K st' a) ∧ ∀ c res, out = some (c, res) →
      ∃ a', (filesLts K).next a (.called f c res) = some a' ∧ Atomic K st' a' := by
  have hself : Function.update st.fPos f (some p) = st.fPos := by
    rw [← hp, Function.update_eq_self]
  cases hs with
  | refused hr =>
    refine ⟨by simp, fun c' res' heq => ?_⟩
    cases heq
    exact h.returns_early hp (by simp [hcall]) (FileCall.run_of_refused hr)
  | interrupted hi =>
    refine ⟨by simp, fun c' res' heq => ?_⟩
    cases heq
    exact h.returns_early hp (by simp [hcall]) (FileCall.run_of_interrupted (h.waiting f _ hcall) hi)
  | @enters c hr =>
    obtain ⟨hwaiting, hopen⟩ := h.checks (f := f) (st.setCall f (.waiting c))
      (by simpa using hr) rfl hself.symm
    refine ⟨fun _ => ⟨h.fPos, h.device.frame rfl (fun f' c' pc' => ?_) fun f' c' pc' _ => rfl,
      hwaiting, hopen⟩, by simp⟩
    rw [Calls.setCall_call]
    exact holding_update (by simp [hcall]) (by simp)
  | @locks c hi hl =>
    obtain ⟨hwaiting, hopen⟩ := h.checks (f := f)
      (Calls.setCall { st with driver := st.driver.mutexLock } f (.holding c c.start))
      (by simp) rfl hself.symm
    obtain ⟨hdriver, hnone⟩ := h.device.of_unlocked hl
    refine ⟨fun _ => ⟨h.fPos, .held rfl (Function.update_self f _ _) hp (fun f' c' pc' hc' => ?_)
      (start_rank c) ?_, hwaiting, hopen⟩, by simp⟩
    · by_contra hf
      rw [Calls.setCall_call, Function.update_of_ne hf] at hc'
      exact hnone f' c' pc' hc'
    · rw [hdriver]
      exact (FileCall.run_eq_finish (h.waiting f c hcall) hi).symm
  | @goesOn c pc pc' s' hstep =>
    obtain ⟨hwaiting, hopen⟩ := h.checks (f := f)
      (Calls.setCall { st with driver := s' } f (.holding c pc')) (by simp) rfl hself.symm
    obtain ⟨hlock, honly, hrank, hfinish⟩ := h.device.of_holding hcall hp
    have hlt := CallPc.rank_lt hstep
    refine ⟨fun _ => ⟨h.fPos, .held ((CallPc.kept_of_goesOn hstep).lock.trans hlock)
      (Function.update_self f _ _) hp (fun f' c' pc'' hc' => ?_) (by omega) ?_, hwaiting, hopen⟩,
      by simp⟩
    · by_contra hf
      rw [Calls.setCall_call, Function.update_of_ne hf] at hc'
      exact hf (honly f' c' pc'' hc')
    · rw [← hfinish]
      exact (Monitor.finish_of_goesOn hstep).symm
  | @returns c pc res s' hstep =>
    obtain ⟨hwaiting, hopen⟩ := h.checks (f := f)
      (Calls.returns { st with driver := s' } f res) (by simp) rfl rfl
    obtain ⟨hlock, honly, hrank, hfinish⟩ := h.device.of_holding hcall hp
    rw [Monitor.finish_of_returns hstep] at hfinish
    refine ⟨by simp, fun c' res' heq => ?_⟩
    cases heq
    refine ⟨{ driver := s', fPos := Function.update a.fPos f (some res.fPos) },
      next_called.mpr ⟨p, h.fPos ▸ hp, hfinish.symm, rfl⟩, ?_, .free ?_ (fun f' c' pc' hc' => ?_) rfl,
      hwaiting, hopen⟩
    · rw [Calls.returns_fPos, h.fPos]
    · rw [Calls.returns_driver, (CallPc.of_returns hstep).2]
      rfl
    · rw [Calls.returns_call] at hc'
      by_cases hf : f' = f
      · subst hf
        simp at hc'
      · rw [Function.update_of_ne hf] at hc'
        exact hf (honly f' c' pc' hc')

/-- What a call returns, it returns as a single step; every other statement is none. -/
theorem calls_simulation (K : Kernel) :
    Lts.Simulation (callsLts K) (filesLts K) (completes K) (Atomic (φ := φ) K) where
  silent := by
    intro st e st' a h hs he
    cases e with
    | opened f => cases he
    | released f => cases he
    | begins f c =>
      obtain ⟨hopen, hcall, rfl⟩ := callsLts_begins.mp hs
      obtain ⟨p, hp⟩ := Option.ne_none_iff_exists'.mp hopen
      obtain ⟨hwaiting, hopen⟩ := h.checks (f := f) (st.setCall f (.entering c)) (q := p)
        (by simp) rfl (by rw [← hp, Function.update_eq_self]; rfl)
      refine ⟨h.fPos, h.device.frame rfl (fun f' c' pc' => ?_) fun f' c' pc' _ => rfl, hwaiting, hopen⟩
      rw [Calls.setCall_call]
      exact holding_update (by simp [hcall]) (by simp)
    | steps f =>
      obtain ⟨p, cs, hp, hcall, hstep⟩ := callsLts_steps.mp hs
      have hout := h.callStep hp hcall (callStep_cases hstep)
      simp only [completes, hp, hcall, Option.map_eq_none_iff] at he
      exact hout.1 he
  step := by
    intro st e st' a e' h hs he
    cases e with
    | opened f =>
      cases he
      obtain ⟨hclosed, rfl⟩ := callsLts_opened.mp hs
      refine ⟨{ a with fPos := Function.update a.fPos f (some 0) },
        next_opened.mpr ⟨h.fPos ▸ hclosed, rfl⟩, by rw [h.fPos], ?_, h.waiting, fun f' hc' => ?_⟩
      · refine h.device.frame rfl (fun _ _ _ => Iff.rfl) fun f' c' pc' hc' => ?_
        have hne : f' ≠ f := fun heq => h.isOpen f' (by simp [hc']) (heq ▸ hclosed)
        exact Function.update_of_ne hne _ _
      · by_cases hf : f' = f
        · subst hf
          simp
        · simp only [Function.update_of_ne hf]
          exact h.isOpen f' hc'
    | released f =>
      cases he
      obtain ⟨hopen, hcall, rfl⟩ := callsLts_released.mp hs
      have hne : ∀ f', st.call f' ≠ none → f' ≠ f := fun f' hc' heq => hc' (heq ▸ hcall)
      refine ⟨{ a with fPos := Function.update a.fPos f none },
        next_released.mpr ⟨h.fPos ▸ hopen, rfl⟩, by rw [h.fPos], ?_, h.waiting, fun f' hc' => ?_⟩
      · refine h.device.frame rfl (fun _ _ _ => Iff.rfl) fun f' c' pc' hc' => ?_
        exact Function.update_of_ne (hne f' (by simp [hc'])) _ _
      · simp only [Function.update_of_ne (hne f' hc')]
        exact h.isOpen f' hc'
    | begins f c => cases he
    | steps f =>
      obtain ⟨p, cs, hp, hcall, hstep⟩ := callsLts_steps.mp hs
      have hout := h.callStep hp hcall (callStep_cases hstep)
      simp only [completes, hp, hcall, Option.map_eq_some_iff] at he
      obtain ⟨⟨c, res⟩, hr, rfl⟩ := he
      exact hout.2 c res hr

omit [DecidableEq φ] in
theorem atomic_init : Atomic K (Calls.init : Calls φ) Files.init :=
  ⟨rfl, .free rfl (by simp [Calls.init]) rfl, by simp [Calls.init], by simp [Calls.init]⟩

/-- Every run: the calls that have returned, in this order, are a run of calls that are single steps,
with the same results and the same positions. While the lock is free the device is the one after
that run, and at no statement a bad access or a bad free of the heap has happened. -/
theorem calls_linearizable (K : Kernel) (es : List (CallEvent φ)) (st : Calls φ)
    (h : (callsLts K).run Calls.init es = some st) :
    let calls := (callsLts K).outputs (completes K) Calls.init es
    ∃ a : Files φ, (filesLts K).run Files.init calls = some a ∧ a.fPos = st.fPos ∧
      (st.driver.dev.lock = false → a.driver = st.driver ∧ Holds K st.driver (fileLog calls)) ∧
      st.driver.heap.faults = [] := by
  intro calls
  obtain ⟨a, ha, hat⟩ := (calls_simulation K).run atomic_init h
  have hok := files_ok ha
  have hfaults : ∀ {s g}, Holds K s g → s.heap.faults = [] := by
    intro s g hh
    obtain ⟨v, hr, -⟩ := hh.rep
    exact hr.owns.faults
  refine ⟨a, ha, hat.fPos, fun hl => ?_, ?_⟩
  · obtain ⟨hdriver, -⟩ := hat.device.of_unlocked hl
    exact ⟨hdriver, hdriver ▸ hok.holds⟩
  · cases hat.device with
    | free hlock hnone hdriver => exact hdriver ▸ hfaults hok.holds
    | @held f c pc p hlock hcall hpos honly hrank hfinish =>
      -- the call would end without a fault, and so it has none yet
      obtain ⟨h0, hle⟩ := hok.fPos f p (hat.fPos ▸ hpos)
      obtain ⟨g', ho⟩ := FileCall.run_cases hok.holds h0 hle hfinish.symm
      have hend := hfaults (ho.ok hok.holds h0 hle).1
      have hpre := CallPc.faults_finish K p pc st.driver
      rw [hend] at hpre
      exact List.prefix_nil.mp hpre

/-- File 0 begins to write `"a\n"`, and file 1 to read while file 0 has the lock. -/
def writeAndRead : List (CallEvent Nat) :=
  [.opened 0, .opened 1, .begins 0 (.write .succeeds (some [97, 10]))] ++
    List.replicate 5 (.steps 0) ++ [.begins 1 (.read ⟨false, false⟩ (some 8)), .steps 1]

theorem calls_linearizable_write_read :
    ∃ (st : Calls Nat) (a : Files Nat),
      (filesLts kernel64).run Files.init
        [.opened 0, .opened 1, .called 0 (.write .succeeds (some [97, 10])) ⟨2, [], 0⟩,
          .called 1 (.read ⟨false, false⟩ (some 8)) ⟨2, [97, 10], 2⟩] = some a ∧
      a.driver = st.driver ∧ st.fPos 1 = some 2 := by
  have hrun : (((callsLts kernel64).run Calls.init
      (writeAndRead ++ List.replicate 7 (.steps 0) ++ List.replicate 5 (.steps 1))).map fun st =>
        (st.driver.dev.lock, st.fPos 1)) = some (false, some 2) := by decide
  obtain ⟨st, hst, heq⟩ := Option.map_eq_some_iff.mp hrun
  obtain ⟨hlock, hpos⟩ := Prod.mk.inj heq
  have hcalls : (callsLts kernel64).outputs (completes kernel64) Calls.init
      (writeAndRead ++ List.replicate 7 (.steps 0) ++ List.replicate 5 (.steps 1)) =
      [.opened 0, .opened 1, .called 0 (.write .succeeds (some [97, 10])) ⟨2, [], 0⟩,
        .called 1 (.read ⟨false, false⟩ (some 8)) ⟨2, [97, 10], 2⟩] := by decide
  obtain ⟨a, ha, -, hfree, -⟩ := calls_linearizable kernel64 _ st hst
  rw [hcalls] at ha
  exact ⟨st, a, ha, (hfree hlock).1, hpos⟩

/-! ## Progress -/

theorem callsLts_step (hp : st.fPos f = some p) (hcall : st.call f = some cs) :
    (callsLts K).next st (.steps f) = st.callStep K f p cs := by
  simp only [callsLts, hp, hcall]

/-- The call under the lock, alone, comes to its end and gives the lock back. -/
theorem holder_returns {c : FileCall} {pc : CallPc} (hp : st.fPos f = some p)
    (hcall : st.call f = some (.holding c pc)) :
    ∃ n st', n ≤ pc.rank ∧ (callsLts K).run st (List.replicate n (.steps f)) = some st' ∧
      st'.call = Function.update st.call f none ∧ st'.driver.dev.lock = false ∧
      ∀ g, g ≠ f → st'.fPos g = st.fPos g := by
  induction hn : pc.rank using Nat.strongRecOn generalizing pc st with
  | _ r ih =>
    subst hn
    have hnext := callsLts_step (K := K) hp hcall
    cases hs : pc.step K p st.driver with
    | returns res s' =>
      have hpos : 0 < pc.rank := by
        rw [(CallPc.of_returns hs).1]
        exact Nat.one_pos
      simp only [Calls.callStep, hs] at hnext
      refine ⟨1, _, hpos, Lts.run_cons_eq_some.mpr ⟨_, hnext, rfl⟩, rfl, ?_, fun g hg => ?_⟩
      · rw [Calls.returns_driver, (CallPc.of_returns hs).2]
        rfl
      · rw [Calls.returns_fPos, Function.update_of_ne hg]
    | goesOn pc' s' =>
      have hlt := CallPc.rank_lt hs
      simp only [Calls.callStep, hs] at hnext
      have hp' : (Calls.setCall { st with driver := s' } f (.holding c pc')).fPos f = some p := hp
      obtain ⟨n, st', hle, hrun, hcall', hlock, hpos⟩ := ih _ hlt hp'
        (Function.update_self f _ _) rfl
      refine ⟨n + 1, st', by omega, ?_, ?_, hlock, hpos⟩
      · rw [List.replicate_succ]
        exact Lts.run_cons_eq_some.mpr ⟨_, hnext, hrun⟩
      · rw [hcall', Calls.setCall_call, Function.update_idem]

/-- A call at the free lock. -/
theorem waiting_returns {c : FileCall} (hp : st.fPos f = some p)
    (hcall : st.call f = some (.waiting c)) (hlock : st.driver.dev.lock = false) :
    ∃ n st', n ≤ 261 ∧ (callsLts K).run st (List.replicate n (.steps f)) = some st' ∧
      st'.call f = none := by
  have hnext := callsLts_step (K := K) hp hcall
  by_cases hi : c.interrupted = true
  · simp only [Calls.callStep, if_pos hi] at hnext
    exact ⟨1, _, by omega, Lts.run_cons_eq_some.mpr ⟨_, hnext, rfl⟩, by simp⟩
  · simp only [Calls.callStep, if_neg hi, hlock, Bool.false_eq_true, ↓reduceIte] at hnext
    have hp' : (Calls.setCall { st with driver := st.driver.mutexLock } f
        (.holding c c.start)).fPos f = some p := hp
    obtain ⟨n, st', hle, hrun, hcall', -, -⟩ := holder_returns (K := K) hp'
      (Function.update_self f _ _)
    have hrank := start_rank c
    refine ⟨n + 1, st', by omega, ?_, by rw [hcall', Function.update_self]⟩
    rw [List.replicate_succ]
    exact Lts.run_cons_eq_some.mpr ⟨_, hnext, hrun⟩

/-- A call anywhere before the lock, which some other call may hold. -/
theorem waits_and_returns {c : FileCall} (h : Atomic K st a) (hp : st.fPos f = some p)
    (hcall : st.call f = some (.waiting c)) :
    ∃ fs st', fs.length ≤ 521 ∧ (callsLts K).run st fs = some st' ∧ st'.call f = none ∧
      ∀ e ∈ fs, ∃ g, e = .steps g ∧ (g = f ∨ ∃ c pc, st.call g = some (.holding c pc)) := by
  cases h.device with
  | free hlock =>
    obtain ⟨n, st', hle, hrun, hdone⟩ := waiting_returns (K := K) hp hcall hlock
    refine ⟨_, st', by simp; omega, hrun, hdone, fun e he => ⟨f, ?_, .inl rfl⟩⟩
    exact List.eq_of_mem_replicate he
  | @held g c' pc q hlock hg hq honly hrank =>
    have hne : f ≠ g := by
      rintro rfl
      rw [hcall] at hg
      cases hg
    obtain ⟨m, st₁, hm, hrun₁, hcall₁, hlock₁, hpos₁⟩ := holder_returns (K := K) hq hg
    have hcall' : st₁.call f = some (.waiting c) := by
      rw [hcall₁, Function.update_of_ne hne, hcall]
    obtain ⟨n, st', hn, hrun, hdone⟩ :=
      waiting_returns (K := K) ((hpos₁ f hne).trans hp) hcall' hlock₁
    refine ⟨_, st', by simp; omega, Lts.run_append_eq_some.mpr ⟨st₁, hrun₁, hrun⟩, hdone,
      fun e he => ?_⟩
    rcases List.mem_append.mp he with he | he
    · exact ⟨g, List.eq_of_mem_replicate he, .inr ⟨c', pc, hg⟩⟩
    · exact ⟨f, List.eq_of_mem_replicate he, .inl rfl⟩

/-- In every reachable state the lock is held by at most one call, and if it is held, by one that is
in progress; and every call in progress can return, after at most 522 statements, of itself and of
the call that holds the lock. -/
theorem call_completes (K : Kernel) (es : List (CallEvent φ)) (st : Calls φ)
    (h : (callsLts K).run Calls.init es = some st) :
    (∀ f c pc, st.call f = some (.holding c pc) → st.driver.dev.lock = true ∧
      ∀ f' c' pc', st.call f' = some (.holding c' pc') → f' = f) ∧
    (st.driver.dev.lock = true → ∃ f c pc, st.call f = some (.holding c pc)) ∧
    ∀ f, st.call f ≠ none →
      ∃ fs st', fs.length ≤ 522 ∧ (callsLts K).run st fs = some st' ∧ st'.call f = none ∧
        ∀ e ∈ fs, ∃ g, e = .steps g ∧ (g = f ∨ ∃ c pc, st.call g = some (.holding c pc)) := by
  obtain ⟨a, -, hat⟩ := (calls_simulation K).run atomic_init h
  refine ⟨fun f c pc hc => ?_, fun hl => ?_, fun f hf => ?_⟩
  · obtain ⟨p, hp⟩ := Option.ne_none_iff_exists'.mp (hat.isOpen f (by simp [hc]))
    obtain ⟨hlock, honly, -, -⟩ := hat.device.of_holding hc hp
    exact ⟨hlock, honly⟩
  · cases hat.device with
    | free hlock =>
      rw [hl] at hlock
      cases hlock
    | held hlock hcall => exact ⟨_, _, _, hcall⟩
  · obtain ⟨cs, hcall⟩ := Option.ne_none_iff_exists'.mp hf
    obtain ⟨p, hp⟩ := Option.ne_none_iff_exists'.mp (hat.isOpen f hf)
    cases cs with
    | holding c pc =>
      obtain ⟨-, -, hrank, -⟩ := hat.device.of_holding hcall hp
      obtain ⟨n, st', hle, hrun, hcall', -, -⟩ := holder_returns (K := K) hp hcall
      refine ⟨_, st', by simp; omega, hrun, by rw [hcall', Function.update_self],
        fun e he => ⟨f, List.eq_of_mem_replicate he, .inl rfl⟩⟩
    | waiting c =>
      obtain ⟨fs, st', hlen, hrun, hdone, hfs⟩ := waits_and_returns hat hp hcall
      exact ⟨fs, st', by omega, hrun, hdone, hfs⟩
    | entering c =>
      have hnext := callsLts_step (K := K) hp hcall
      cases hr : c.refused with
      | some e =>
        simp only [Calls.callStep, hr] at hnext
        exact ⟨[.steps f], _, by simp, Lts.run_cons_eq_some.mpr ⟨_, hnext, rfl⟩, by simp,
          by simp⟩
      | none =>
        simp only [Calls.callStep, hr] at hnext
        have hat' : Atomic K (st.setCall f (.waiting c)) a := by
          have := (hat.callStep hp hcall (.enters hr)).1 rfl
          exact this
        obtain ⟨fs, st', hlen, hrun, hdone, hfs⟩ := waits_and_returns (f := f) (p := p) hat' hp
          (Function.update_self f _ _)
        refine ⟨.steps f :: fs, st', by simp; omega, Lts.run_cons_eq_some.mpr ⟨_, hnext, hrun⟩,
          hdone, fun e he => ?_⟩
        rcases List.mem_cons.mp he with rfl | he
        · exact ⟨f, rfl, .inl rfl⟩
        · obtain ⟨g, rfl, hg | ⟨c', pc, hc'⟩⟩ := hfs e he
          · exact ⟨g, rfl, .inl hg⟩
          · rw [Calls.setCall_call] at hc'
            exact ⟨g, rfl, .inr ⟨c', pc, (holding_update (by simp [hcall]) (by simp)).mp hc'⟩⟩

/-- File 1, which waits for file 0, can come to its end. -/
theorem call_completes_write_read :
    ∃ (st : Calls Nat) (fs : List (CallEvent Nat)) (st' : Calls Nat),
      (callsLts kernel64).run Calls.init writeAndRead = some st ∧
      st.call 1 = some (.waiting (.read ⟨false, false⟩ (some 8))) ∧ st.driver.dev.lock = true ∧
      (callsLts kernel64).run st fs = some st' ∧ st'.call 1 = none := by
  have hrun : (((callsLts kernel64).run Calls.init writeAndRead).map fun st =>
      (st.call 1, st.driver.dev.lock)) =
        some (some (.waiting (.read ⟨false, false⟩ (some 8))), true) := by decide
  obtain ⟨st, hst, heq⟩ := Option.map_eq_some_iff.mp hrun
  obtain ⟨hcall, hlock⟩ := Prod.mk.inj heq
  obtain ⟨-, -, hdone⟩ := call_completes kernel64 _ st hst
  obtain ⟨fs, st', -, hfs, hnone, -⟩ := hdone 1 (by simp [hcall])
  exact ⟨st, fs, st', hst, hcall, hlock, hfs, hnone⟩

end Aesd
