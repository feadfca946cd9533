import Aesd.Server.Provenance

/-!
# A critical section of `file_mutex` runs alone

While a thread holds `file_mutex`, no other thread touches the device (`server_mutex`,
`Step.quiet`). So what it does there is a run of the thread alone with the device and its open file
(`Session`), whatever the other threads do meanwhile: `server_section`.
-/

namespace Aesd

open Threads (State Label)

/-- A thread alone with the device: the thread, the device, the position of its open file. -/
structure Session where
  client : Client
  driver : Driver
  fPos : Int

/-- A thread alone with the device, as a system of its calls. -/
def Session.lts (K : Kernel) : Lts Session (Sys × Env) where
  next s l :=
    ((Client.lts .charDevice).next s.client l.1).bind fun c =>
      (deviceCall K l.2 s.driver s.fPos l.1).map fun r =>
        { client := c, driver := r.1, fPos := r.2 }

theorem Session.next_eq_some {K : Kernel} {s s' : Session} {l : Sys × Env} :
    (Session.lts K).next s l = some s' ↔
      (Client.lts .charDevice).next s.client l.1 = some s'.client ∧
        deviceCall K l.2 s.driver s.fPos l.1 = some (s'.driver, s'.fPos) := by
  simp only [Session.lts, Option.bind_eq_some_iff, Option.map_eq_some_iff]
  constructor
  · rintro ⟨c, hc, r, hr, rfl⟩
    exact ⟨hc, hr⟩
  · rintro ⟨hc, hr⟩
    exact ⟨_, hc, _, hr, rfl⟩

/-- Outside the critical sections a thread does not touch the device. -/
theorem Client.Step.quiet {b : Build} {node : Bool} {pc pc' : Pc} {ev : Sys} {K : Kernel} {env : Env}
    {d : Driver} {fPos : Int} (h : Client.Step b node pc ev pc') (hp : pc.holdsFile = false) :
    deviceCall K env d fPos ev = some (d, fPos) := by
  cases h with
  | _ => first | rfl | cases hp

variable {τ : Type*} [DecidableEq τ] {K : Kernel} {tr : List (Label τ Sys Env)}
  {s s' : State τ Client (Shared τ)} {t : τ}

/-- `file_mutex` is held by the thread in a critical section, and by no other. -/
def MutexInv (s : State τ Client (Shared τ)) : Prop :=
  ∀ t, (s.local_ t).pc.holdsFile = true ↔ s.shared.fileMutex = some t

omit [DecidableEq τ] in
/-- A call on something else leaves `file_mutex` as it was. -/
theorem mutexCall_fileMutex {k k' : Shared τ} {ev : Sys} (h : mutexCall k t ev = some k')
    (h1 : ev ≠ .lock .file true) (h2 : ev ≠ .unlock .file) : k'.fileMutex = k.fileMutex := by
  unfold mutexCall at h
  split at h
  · exact absurd rfl h1
  · split at h
    · cases h; rfl
    · cases h
  · exact absurd rfl h2
  · cases h; rfl
  · cases h; rfl

theorem MutexInv.next {l : Label τ Sys Env} (ih : MutexInv s)
    (h : (server τ K).lts.next s l = some s') : MutexInv s' := by
  intro t
  obtain ⟨c, k, hc, hk, rfl⟩ := Threads.next_eq_some.mp h
  obtain ⟨k₁, r, h1, -, rfl⟩ := service_eq_some.mp hk
  have hl := ih l.tid
  have ht := ih t
  simp only [Function.update_apply]
  rcases (Client.next_eq_some hc).1.holdsFile with ⟨hev, hp, hp'⟩ | ⟨hev, hp, hp'⟩ | ⟨hn1, hn2, hp⟩
  · -- the mutex was free
    rw [hev] at h1
    simp only [mutexCall, Option.ite_none_right_eq_some, Option.some.injEq] at h1
    obtain ⟨hfree, rfl⟩ := h1
    split
    · rename_i heq
      simp [heq, hp']
    · rename_i hne
      rw [ht, hfree]
      simpa using fun h => hne h.symm
  · -- the mutex was held by the thread of the call
    rw [hev] at h1
    cases h1
    split
    · simp [hp']
    · rename_i hne
      rw [ht, hl.mp hp]
      simpa using fun h => hne h.symm
  · rw [mutexCall_fileMutex h1 hn1 hn2]
    split
    · rename_i heq
      rw [hp, heq]
      exact hl
    · exact ht

theorem server_mutex (h : (server τ K).lts.run (server.init τ) tr = some s) : MutexInv s := by
  refine Lts.run_invariant (fun _ _ _ ih hs => ih.next hs) ?_ h
  intro t
  simp [server.init, Client.start, Pc.holdsFile]

/-- What thread `t` sees in a critical section. -/
def view (t : τ) (s : State τ Client (Shared τ)) : Session :=
  { client := s.local_ t, driver := s.shared.driver, fPos := s.shared.fPos t }

/-- A call of thread `t` on its view. -/
theorem view_next {l : Label τ Sys Env} (h : (server τ K).lts.next s l = some s') :
    (Session.lts K).next (view l.tid s) (l.ev, l.env) = some (view l.tid s') := by
  obtain ⟨c, k, hc, hk, rfl⟩ := Threads.next_eq_some.mp h
  obtain ⟨k₁, r, h1, h2, rfl⟩ := service_eq_some.mp hk
  obtain ⟨hd, hf⟩ := mutexCall_frame h1
  rw [hd, hf] at h2
  rw [Session.next_eq_some]
  simp only [view, Function.update_self]
  exact ⟨hc, h2⟩

/-- A call of another thread while `t` is in a critical section. -/
theorem view_next_of_ne {l : Label τ Sys Env} (hm : MutexInv s)
    (ht : (s.local_ t).pc.holdsFile = true) (hl : l.tid ≠ t)
    (h : (server τ K).lts.next s l = some s') : view t s' = view t s := by
  obtain ⟨c, k, hc, hk, rfl⟩ := Threads.next_eq_some.mp h
  obtain ⟨k₁, r, h1, h2, rfl⟩ := service_eq_some.mp hk
  obtain ⟨hd, hf⟩ := mutexCall_frame h1
  have hout : (s.local_ l.tid).pc.holdsFile = false := by
    rw [← Bool.not_eq_true, hm l.tid, (hm t).mp ht]
    simpa using fun h => hl h.symm
  rw [(Client.next_eq_some hc).1.quiet hout] at h2
  cases h2
  simp [view, Function.update_of_ne (Ne.symm hl), hd, hf]

/-- While thread `t` is in a critical section, the run of the server is, for `t` and the device, a
run of `t` alone. -/
theorem server_section (hm : MutexInv s) (ht : (s.local_ t).pc.holdsFile = true)
    (hrun : (server τ K).lts.run s tr = some s')
    (hkeeps : ∀ l ∈ tr, l.tid = t → l.ev ≠ .unlock .file) :
    (s'.local_ t).pc.holdsFile = true ∧
      (Session.lts K).run (view t s) (Threads.labelsOf t tr) = some (view t s') := by
  have h := Threads.section_run (T := server τ K) (M := Session.lts K) (t := t) (view t)
    (fun s => MutexInv s ∧ (s.local_ t).pc.holdsFile = true) (· ≠ .unlock .file) ?_ ?_ ⟨hm, ht⟩ hrun
    hkeeps
  · exact ⟨h.1.2, h.2⟩
  · rintro s l s' ⟨hm, ht⟩ hl hs
    have hv := view_next_of_ne hm ht hl hs
    refine ⟨⟨hm.next hs, ?_⟩, hv⟩
    have hc := congrArg Session.client hv
    simp only [view] at hc
    rw [hc]
    exact ht
  · rintro s l s' ⟨hm, ht⟩ rfl hk hs
    refine ⟨⟨hm.next hs, ?_⟩, view_next hs⟩
    have hstep := (Client.next_eq_some (Session.next_eq_some.mp (view_next hs)).1).1
    rcases hstep.holdsFile with ⟨-, hp, -⟩ | ⟨hev, -, -⟩ | ⟨-, -, hp⟩
    · simp only [view] at hp
      rw [hp] at ht
      cases ht
    · exact absurd hev hk
    · exact hp.trans ht

end Aesd
