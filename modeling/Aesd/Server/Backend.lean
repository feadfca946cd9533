import Aesd.Server.Snapshot

/-!
# A store behind `file_mutex`

`handle_client` over a store of any kind. The mutex owns the store: while it is free, the store holds
the chunks of all finished critical sections, in order; a thread that holds it is somewhere in the
section of the last chunk (`InSection`).

* `lockedServer`: the client threads of a build, over the store, its calls and the two mutexes.
* `Backend`: what a store must do in the calls of a section that do not fail.
* `processed`: the chunks of a run in the order of their critical sections.
* `Consistent.run`: the run lemma, and `Backend.response`: a thread with a newline chunk gets what the
  store shows right after this chunk, and nothing else.
-/

namespace Aesd

open Threads (State Label labelsOf)

variable {σ τ : Type*}

/-- What the threads share, with a store `σ`. -/
structure Locked (σ τ : Type*) where
  store : σ
  fileMutex : Option τ
  listMutex : Option τ
  /-- The position of the file that a thread has open. -/
  fPos : τ → Int

/-- A call's effect on the mutexes: `lock` blocks while the mutex is held. -/
def Locked.mutexCall (k : Locked σ τ) (t : τ) : Sys → Option (Locked σ τ)
  | .lock .file true => if k.fileMutex = none then some { k with fileMutex := some t } else none
  | .lock .list true => if k.listMutex = none then some { k with listMutex := some t } else none
  | .unlock .file => some { k with fileMutex := none }
  | .unlock .list => some { k with listMutex := none }
  | _ => some k

/-- The mutexes are apart from the store and the open files, and a call on something else leaves
`file_mutex` as it was. -/
theorem Locked.mutexCall_frame {k k' : Locked σ τ} {t : τ} {ev : Sys}
    (h : k.mutexCall t ev = some k') :
    k'.store = k.store ∧ k'.fPos = k.fPos ∧
      (ev ≠ .lock .file true → ev ≠ .unlock .file → k'.fileMutex = k.fileMutex) := by
  unfold mutexCall at h
  split at h
  · split at h
    · cases h
      exact ⟨rfl, rfl, fun hne => absurd rfl hne⟩
    · cases h
  · split at h
    · cases h
      exact ⟨rfl, rfl, fun _ _ => rfl⟩
    · cases h
  · cases h
    exact ⟨rfl, rfl, fun _ hne => absurd rfl hne⟩
  · cases h
    exact ⟨rfl, rfl, fun _ _ => rfl⟩
  · cases h
    exact ⟨rfl, rfl, fun _ _ => rfl⟩

/-- The client threads of a build over a store, whose calls are `call`. -/
def lockedServer (τ : Type*) [DecidableEq τ] (b : Build)
    (call : Env → σ → Int → Sys → Option (σ × Int)) :
    Threads τ Client (Locked σ τ) Sys Env where
  thread := Client.lts b
  service k t ev env :=
    (k.mutexCall t ev).bind fun k' =>
      (call env k'.store (k'.fPos t) ev).map fun r =>
        { k' with store := r.1, fPos := Function.update k'.fPos t r.2 }

/-- Before the first connection. -/
def lockedServer.init (τ : Type*) (st : σ) : State τ Client (Locked σ τ) where
  local_ _ := .start
  shared := { store := st, fileMutex := none, listMutex := none, fPos := fun _ => 0 }

/-- No system call fails, and no chunk asks for a seek. The sockets and the store accept what is
written, possibly in part. -/
def Plain : Sys → Prop
  | .recv (some chunk) => ¬ seekPrefix <+: chunk
  | .open ok | .lseek ok => ok = true
  | .write _ ret | .send _ ret => 0 < ret
  | .read bs => bs.isSome = true
  | _ => True

instance : DecidablePred Plain := fun ev => by
  unfold Plain
  split <;> infer_instance

/-- A call on an open file. -/
def Sys.onFile : Sys → Bool
  | .open _ | .ioctl _ _ | .write _ _ | .read _ | .lseek _ => true
  | _ => false

/-- What a store does in the calls that do not fail. `Stores st cs part`: it holds the chunks `cs`,
and the part of the next one that is written so far; `shows cs` is what can be read then. -/
structure Backend (call : Env → σ → Int → Sys → Option (σ × Int))
    (Stores : σ → List Bytes → Bytes → Prop) (shows : List Bytes → Bytes) : Prop where
  apart : ∀ {env st p ev r}, ev.onFile = false → call env st p ev = some r → r = (st, p)
  opened : ∀ {env st p cs part r}, Stores st cs part → call env st p (.open true) = some r →
    Stores r.1 cs part ∧ r.2 = (0 : Nat)
  rewound : ∀ {env st p cs part r}, Stores st cs part → call env st p (.lseek true) = some r →
    Stores r.1 cs part ∧ r.2 = (0 : Nat)
  more : ∀ {env st p cs} {c : Bytes} {n k r}, Stores st cs (c.take n) → 0 < k →
    n + k < c.length → call env st p (.write (c.drop n) (k : Nat)) = some r →
    Stores r.1 cs (c.take (n + k))
  done : ∀ {env st p cs} {c : Bytes} {n k r}, Stores st cs (c.take n) → 0 < k →
    n + k = c.length → call env st p (.write (c.drop n) (k : Nat)) = some r →
    Stores r.1 (cs ++ [c]) []
  read : ∀ {env st cs q bs r}, Stores st cs [] → q ≤ (shows cs).length →
    call env st (q : Nat) (.read (some bs)) = some r →
    Stores r.1 cs [] ∧ r.2 = (q + bs.length : Nat) ∧ bs <+: (shows cs).drop q ∧
      (bs = [] → q = (shows cs).length)

/-! ## The chunks of a run -/

section

variable [DecidableEq τ] {κ : Type*}

/-- The chunk whose critical section begins with the call. -/
def entered (s : State τ Client κ) (l : Label τ Sys Env) : Option (τ × Bytes) :=
  match (s.local_ l.tid).pc, l.ev with
  | .dataLock chunk, .lock .file true => some (l.tid, chunk)
  | _, _ => none

/-- The chunks of a run, with their threads, in the order of their critical sections. -/
def processed (T : Threads τ Client κ Sys Env) (s : State τ Client κ)
    (tr : List (Label τ Sys Env)) : List (τ × Bytes) := T.lts.outputs entered s tr

/-- No chunk of thread `t` has a newline. -/
def Unanswered (t : τ) (fed : List (τ × Bytes)) : Prop :=
  ∀ x ∈ fed, x.1 = t → x.2.any isNewline = false

/-- Thread `t` has a chunk with a newline, the only one, and got what the chunks up to it show. -/
def Answered (shows : List Bytes → Bytes) (fed : List (τ × Bytes)) (t : τ) (sent : Bytes) : Prop :=
  ∃ before c later, fed = before ++ (t, c) :: later ∧ c.any isNewline = true ∧
    Unanswered t (before ++ later) ∧ sent = shows (before.map Prod.snd ++ [c])

end

/-! ## A thread in and out of a critical section -/

namespace Pc

/-- On the way to a seek, outside the critical section. -/
def seeks : Pc → Bool
  | .seekLock _ => true
  | _ => false

/-- Behind the main loop. -/
def ended : Pc → Bool
  | .freeBuffer | .closeSocket | .freeData | .markLock | .mark | .markUnlock | .exited => true
  | _ => false

end Pc

section

variable {shows : List Bytes → Bytes} {Stores : σ → List Bytes → Bytes → Prop}
  {fed : List (τ × Bytes)} {t u : τ} {sent : Bytes}

/-- A thread outside the critical sections got nothing yet, or it has its response and is behind the
main loop. -/
structure Outside (shows : List Bytes → Bytes) (fed : List (τ × Bytes)) (t : τ) (pc : Pc)
    (sent : Bytes) : Prop where
  plain : pc.seeks = false
  chunk : ∀ c, pc.chunk = some c → c ≠ []
  got : (Unanswered t fed ∧ sent = []) ∨ (pc.ended = true ∧ Answered shows fed t sent)

/-- A thread in the critical section of the last chunk. -/
def InSection (Stores : σ → List Bytes → Bytes → Prop) (shows : List Bytes → Bytes)
    (fed : List (τ × Bytes)) (t : τ) (pc : Pc) (st : σ) (p : Int) (sent : Bytes) : Prop :=
  ∃ before c, fed = before ++ [(t, c)] ∧ Unanswered t before ∧
    let cs := before.map Prod.snd
    match pc with
    | .dataOpen c' => c' = c ∧ c ≠ [] ∧ sent = [] ∧ Stores st cs []
    | .write c' n => c' = c ∧ n < c.length ∧ sent = [] ∧ Stores st cs (c.take n)
    | .close .recv | .unlock .recv =>
      c.any isNewline = false ∧ sent = [] ∧ Stores st (cs ++ [c]) []
    | .reclose | .reopen | .lseek => c.any isNewline = true ∧ sent = [] ∧ Stores st (cs ++ [c]) []
    | .read .cleanup => c.any isNewline = true ∧ Stores st (cs ++ [c]) [] ∧
      ∃ q : Nat, p = q ∧ q ≤ (shows (cs ++ [c])).length ∧
        sent ++ (shows (cs ++ [c])).drop q = shows (cs ++ [c])
    | .send .cleanup bs n => c.any isNewline = true ∧ Stores st (cs ++ [c]) [] ∧ n < bs.length ∧
      ∃ q : Nat, p = q ∧ q ≤ (shows (cs ++ [c])).length ∧
        sent ++ (bs.drop n ++ (shows (cs ++ [c])).drop q) = shows (cs ++ [c])
    | .close .cleanup | .unlock .cleanup =>
      c.any isNewline = true ∧ Stores st (cs ++ [c]) [] ∧ sent = shows (cs ++ [c])
    | _ => False

theorem Unanswered.append {fed' : List (τ × Bytes)} (h : Unanswered t fed) (h' : Unanswered t fed') :
    Unanswered t (fed ++ fed') := by
  intro x hx ht
  rcases List.mem_append.mp hx with hx | hx
  · exact h x hx ht
  · exact h' x hx ht

theorem unanswered_of_ne {c : Bytes} (h : u ≠ t) : Unanswered t [(u, c)] := by
  intro x hx ht
  rw [List.mem_singleton.mp hx] at ht
  exact absurd ht h

/-- Another thread begins its section. -/
theorem Outside.entered {pc : Pc} {c : Bytes} (h : Outside shows fed t pc sent) (hu : u ≠ t) :
    Outside shows (fed ++ [(u, c)]) t pc sent := by
  refine ⟨h.plain, h.chunk, ?_⟩
  rcases h.got with ⟨hun, hsent⟩ | ⟨hended, before, c', later, rfl, hnl, hun, hsent⟩
  · exact .inl ⟨hun.append (unanswered_of_ne hu), hsent⟩
  · refine .inr ⟨hended, before, c', later ++ [(u, c)], by simp, hnl, ?_, hsent⟩
    rw [← List.append_assoc]
    exact hun.append (unanswered_of_ne hu)

/-- A call outside the critical sections. -/
theorem Outside.next {b : Build} {node : Bool} {pc pc' : Pc} {ev : Sys}
    (h : Outside shows fed t pc sent) (hstep : Client.Step b node pc ev pc') (hev : Plain ev)
    (hp : pc.holdsFile = false) (hlock : ev ≠ .lock .file true) :
    Outside shows fed t pc' sent ∧ sentBytes ev = [] ∧ ev.onFile = false := by
  obtain ⟨hplain, hchunk, hgot⟩ := h
  -- before the end of the main loop there is no response
  have hun : pc.ended = false → Unanswered t fed ∧ sent = [] := by
    intro hend
    rcases hgot with hun | ⟨hend', -⟩
    · exact hun
    · rw [hend] at hend'
      cases hend'
  cases hstep with
  | recv hne hfits =>
    refine ⟨⟨?_, ?_, .inl (hun rfl)⟩, rfl, rfl⟩
    · rw [Client.dispatch, if_neg hev]
      rfl
    · intro c hc
      rw [← Client.chunk_dispatch hc]
      exact hne
  | dataLock => exact absurd rfl hlock
  | seekLock | seekSkip | seekLockFails => cases hplain
  | addMalloc | addFails | addLock | addLink | addUnlock | malloc | mallocFails | recvEnd
  | dataLockFails => exact ⟨⟨rfl, nofun, .inl (hun rfl)⟩, rfl, rfl⟩
  | freeBuffer | closeSocket | freeData | exit | markLock | mark | markUnlock =>
    exact ⟨⟨rfl, nofun, hgot⟩, rfl, rfl⟩
  | _ => cases hp

/-- The lock begins the section of the thread's chunk. -/
theorem InSection.enter {pc pc' : Pc} {b : Build} {node : Bool} {st : σ} {p : Int}
    (h : Outside shows fed t pc sent) (hstores : Stores st (fed.map Prod.snd) [])
    (hstep : Client.Step b node pc (.lock .file true) pc') :
    ∃ c, pc = .dataLock c ∧ InSection Stores shows (fed ++ [(t, c)]) t pc' st p sent := by
  obtain ⟨hplain, hchunk, hgot⟩ := h
  cases hstep with
  | seekLock | seekSkip => cases hplain
  | @dataLock c =>
    rcases hgot with ⟨hun, hsent⟩ | ⟨hended, -⟩
    · exact ⟨c, rfl, fed, c, rfl, hun, rfl, hchunk c rfl, hsent, hstores⟩
    · cases hended

/-- The unlock ends it. -/
theorem InSection.leave {pc pc' : Pc} {b : Build} {node : Bool} {st : σ} {p : Int}
    (h : InSection Stores shows fed t pc st p sent)
    (hstep : Client.Step b node pc (.unlock .file) pc') :
    Outside shows fed t pc' sent ∧ Stores st (fed.map Prod.snd) [] := by
  obtain ⟨before, c, rfl, hun, h⟩ := h
  rw [List.map_append]
  cases hstep with
  | @unlock after =>
    cases after with
    | recv =>
      obtain ⟨hnl, hsent, hstores⟩ := h
      refine ⟨⟨rfl, nofun, .inl ⟨hun.append ?_, hsent⟩⟩, hstores⟩
      intro x hx _
      rw [List.mem_singleton.mp hx]
      exact hnl
    | cleanup =>
      obtain ⟨hnl, hstores, hsent⟩ := h
      refine ⟨⟨rfl, nofun, .inr ⟨rfl, before, c, [], rfl, hnl, ?_, hsent⟩⟩, hstores⟩
      rwa [List.append_nil]

variable {call : Env → σ → Int → Sys → Option (σ × Int)}

/-- A call in the section. -/
theorem InSection.next (B : Backend call Stores shows) {b : Build} {node : Bool} {pc pc' : Pc}
    {ev : Sys} {env : Env} {st st' : σ} {p p' : Int}
    (h : InSection Stores shows fed t pc st p sent) (hstep : Client.Step b node pc ev pc')
    (hev : Plain ev) (hunlock : ev ≠ .unlock .file) (hcall : call env st p ev = some (st', p')) :
    InSection Stores shows fed t pc' st' p' (sent ++ sentBytes ev) := by
  obtain ⟨before, c, rfl, hun, h⟩ := h
  refine ⟨before, c, rfl, hun, ?_⟩
  cases hstep with
  | dataOpen =>
    obtain ⟨rfl, hc, rfl, hstores⟩ := h
    exact ⟨rfl, List.length_pos_iff.mpr hc, rfl, (B.opened hstores hcall).1⟩
  | dataOpenFails => cases hev
  | @write c' n ret hret =>
    obtain ⟨rfl, hn, rfl, hstores⟩ := h
    have hpos : 0 < ret := hev
    obtain ⟨k, rfl⟩ : ∃ k : Nat, ret = k := ⟨ret.toNat, by omega⟩
    rw [List.length_drop] at hret
    by_cases hmore : n + k < c'.length
    · rw [Client.writeAllStep_of_lt (by omega) hmore]
      exact ⟨rfl, hmore, rfl, B.more hstores (by omega) hmore hcall⟩
    · have hdone : n + k = c'.length := by omega
      have hstores' := B.done hstores (by omega) hdone hcall
      rw [Client.writeAllStep_of_eq (by omega) hdone]
      simp only [Client.afterWriteAll, ↓reduceIte, Client.afterWrite]
      cases hnl : c'.any isNewline with
      | false => exact ⟨hnl, rfl, hstores'⟩
      | true => cases b <;> exact ⟨hnl, rfl, hstores'⟩
  | reclose =>
    obtain ⟨hnl, rfl, hstores⟩ := h
    cases B.apart rfl hcall
    exact ⟨hnl, rfl, hstores⟩
  | reopen =>
    obtain ⟨hnl, rfl, hstores⟩ := h
    obtain ⟨hstores', hp⟩ := B.opened hstores hcall
    exact ⟨hnl, hstores', 0, hp, Nat.zero_le _, rfl⟩
  | reopenFails => cases hev
  | lseek =>
    obtain ⟨hnl, rfl, hstores⟩ := h
    obtain ⟨hstores', hp⟩ := B.rewound hstores hcall
    exact ⟨hnl, hstores', 0, hp, Nat.zero_le _, rfl⟩
  | lseekFails => cases hev
  | @read after bs hfits =>
    cases after with
    | recv => cases h
    | cleanup =>
      obtain ⟨hnl, hstores, q, rfl, hq, hsent⟩ := h
      obtain ⟨bs, rfl⟩ := Option.isSome_iff_exists.mp hev
      obtain ⟨hstores', hp, hbs, hend⟩ := B.read hstores hq hcall
      simp only [sentBytes, List.append_nil, Client.afterRead]
      by_cases hnil : bs = []
      · -- the end of the response
        rw [if_pos hnil]
        rw [hend hnil, List.drop_length, List.append_nil] at hsent
        exact ⟨hnl, hstores', hsent⟩
      · rw [if_neg hnil]
        have hlen := hbs.length_le
        rw [List.length_drop] at hlen
        refine ⟨hnl, hstores', List.length_pos_iff.mpr hnil, q + bs.length, hp, by omega, ?_⟩
        rwa [List.drop_zero, ← List.drop_drop, List.prefix_iff_eq_append.mp hbs]
  | @send after bs n ret hret =>
    cases after with
    | recv => cases h
    | cleanup =>
      obtain ⟨hnl, hstores, hn, q, rfl, hq, hsent⟩ := h
      have hpos : 0 < ret := hev
      obtain ⟨k, rfl⟩ : ∃ k : Nat, ret = k := ⟨ret.toNat, by omega⟩
      rw [List.length_drop] at hret
      cases B.apart rfl hcall
      have hsplit : (sent ++ (bs.drop n).take k) ++ (bs.drop (n + k) ++
          (shows (before.map Prod.snd ++ [c])).drop q) = shows (before.map Prod.snd ++ [c]) := by
        rw [← List.drop_drop, List.append_assoc sent, ← List.append_assoc (List.take k _),
          List.take_append_drop]
        exact hsent
      by_cases hmore : n + k < bs.length
      · rw [Client.writeAllStep_of_lt (by omega) hmore]
        exact ⟨hnl, hstores, hmore, q, rfl, hq, hsplit⟩
      · have hdone : n + k = bs.length := by omega
        rw [Client.writeAllStep_of_eq (by omega) hdone]
        simp only [Client.afterSendAll, ↓reduceIte]
        refine ⟨hnl, hstores, q, rfl, hq, ?_⟩
        rwa [hdone, List.drop_length, List.nil_append] at hsplit
  | @close after =>
    cases B.apart rfl hcall
    simp only [sentBytes, List.append_nil]
    cases after <;> exact h
  | unlock => exact absurd rfl hunlock
  | _ => cases h

end

/-! ## Runs -/

section

variable [DecidableEq τ] {b : Build} {call : Env → σ → Int → Sys → Option (σ × Int)}
  {shows : List Bytes → Bytes} {Stores : σ → List Bytes → Bytes → Prop} {fed : List (τ × Bytes)}
  {sent : τ → Bytes} {tr : List (Label τ Sys Env)} {s s' : State τ Client (Locked σ τ)}
  {l : Label τ Sys Env}

/-- The mutex owns the store, and every thread is in its section or outside of it. -/
structure Consistent (Stores : σ → List Bytes → Bytes → Prop) (shows : List Bytes → Bytes)
    (fed : List (τ × Bytes)) (sent : τ → Bytes) (s : State τ Client (Locked σ τ)) : Prop where
  mutex : ∀ t, (s.local_ t).pc.holdsFile = true ↔ s.shared.fileMutex = some t
  free : s.shared.fileMutex = none → Stores s.shared.store (fed.map Prod.snd) []
  held : ∀ t, (s.local_ t).pc.holdsFile = true →
    InSection Stores shows fed t (s.local_ t).pc s.shared.store (s.shared.fPos t) (sent t)
  outside : ∀ t, (s.local_ t).pc.holdsFile = false →
    Outside shows fed t (s.local_ t).pc (sent t)

/-- A step of the server: a call of a thread, on the mutexes and on the store. -/
theorem lockedServer_next (h : (lockedServer τ b call).lts.next s l = some s') :
    ∃ c k r, (Client.lts b).next (s.local_ l.tid) l.ev = some c ∧
      s.shared.mutexCall l.tid l.ev = some k ∧
      call l.env s.shared.store (s.shared.fPos l.tid) l.ev = some r ∧
      s' = { local_ := Function.update s.local_ l.tid c,
             shared := { k with store := r.1, fPos := Function.update k.fPos l.tid r.2 } } := by
  obtain ⟨c, k', hc, hk, rfl⟩ := Threads.next_eq_some.mp h
  simp only [lockedServer, Option.bind_eq_some_iff, Option.map_eq_some_iff] at hk
  obtain ⟨k, hk, r, hr, rfl⟩ := hk
  obtain ⟨hst, hp, -⟩ := Locked.mutexCall_frame hk
  rw [hst, hp] at hr
  exact ⟨c, k, r, hc, hk, hr, rfl⟩

omit [DecidableEq τ] in
/-- The chunk of a step that does not lock `file_mutex`. -/
theorem entered_of_ne (h : l.ev ≠ .lock .file true) : entered s l = none := by
  unfold entered
  split
  · rename_i hev
    exact absurd hev h
  · rfl

namespace Consistent

variable {c : Client} {k : Locked σ τ} {r : σ × Int}

omit [DecidableEq τ] in
/-- Two threads are not in a section at the same time. -/
theorem eq_of_holds (h : Consistent Stores shows fed sent s) {t u : τ}
    (ht : (s.local_ t).pc.holdsFile = true) (hu : (s.local_ u).pc.holdsFile = true) : t = u :=
  Option.some.inj (((h.mutex t).mp ht).symm.trans ((h.mutex u).mp hu))

/-- A thread takes the mutex. -/
theorem lock (B : Backend call Stores shows) (h : Consistent Stores shows fed sent s)
    (hs : (lockedServer τ b call).lts.next s l = some s') (hl : l.ev = .lock .file true) :
    Consistent Stores shows (fed ++ (entered s l).toList) sent s' := by
  obtain ⟨c, k, r, hc, hk, hr, rfl⟩ := lockedServer_next hs
  obtain ⟨hstep, -⟩ := Client.next_eq_some hc
  obtain ⟨hin, hout⟩ : (s.local_ l.tid).pc.holdsFile = false ∧ c.pc.holdsFile = true := by
    rcases hstep.holdsFile with ⟨-, h1, h2⟩ | ⟨hev, -⟩ | ⟨hne, -⟩
    · exact ⟨h1, h2⟩
    · rw [hl] at hev
      cases hev
    · exact absurd hl hne
  rw [hl] at hstep hk hr
  cases B.apart rfl hr
  simp only [Locked.mutexCall, Option.ite_none_right_eq_some, Option.some.injEq] at hk
  obtain ⟨hfree, rfl⟩ := hk
  have hnone : ∀ t, (s.local_ t).pc.holdsFile = false := by
    intro t
    rw [← Bool.not_eq_true, h.mutex t, hfree]
    exact nofun
  obtain ⟨chunk, hpc, hsec⟩ := InSection.enter (p := s.shared.fPos l.tid) (h.outside l.tid hin)
    (h.free hfree) hstep
  have hentered : entered s l = some (l.tid, chunk) := by rw [entered, hpc, hl]
  rw [hentered, Option.toList_some]
  refine ⟨fun t => ?_, nofun, fun t ht => ?_, fun t ht => ?_⟩
  · by_cases heq : t = l.tid
    · subst heq
      simp [hout]
    · simp [heq, hnone t, Ne.symm heq]
  · by_cases heq : t = l.tid
    · subst heq
      simpa using hsec
    · simp only [Function.update_of_ne heq, hnone t] at ht
      cases ht
  · by_cases heq : t = l.tid
    · subst heq
      simp only [Function.update_self, hout] at ht
      cases ht
    · simpa only [Function.update_of_ne heq] using (h.outside t (hnone t)).entered (Ne.symm heq)

/-- A thread releases the mutex. -/
theorem unlock (B : Backend call Stores shows) (h : Consistent Stores shows fed sent s)
    (hs : (lockedServer τ b call).lts.next s l = some s') (hl : l.ev = .unlock .file) :
    Consistent Stores shows fed sent s' := by
  obtain ⟨c, k, r, hc, hk, hr, rfl⟩ := lockedServer_next hs
  obtain ⟨hstep, -⟩ := Client.next_eq_some hc
  obtain ⟨hin, hout⟩ : (s.local_ l.tid).pc.holdsFile = true ∧ c.pc.holdsFile = false := by
    rcases hstep.holdsFile with ⟨hev, -⟩ | ⟨-, h1, h2⟩ | ⟨-, hne, -⟩
    · rw [hl] at hev
      cases hev
    · exact ⟨h1, h2⟩
    · exact absurd hl hne
  rw [hl] at hstep hk hr
  cases B.apart rfl hr
  cases hk
  have hothers : ∀ t, t ≠ l.tid → (s.local_ t).pc.holdsFile = false := by
    intro t ht
    rw [← Bool.not_eq_true]
    exact fun hhold => ht (h.eq_of_holds hhold hin)
  obtain ⟨hself, hstores⟩ := (h.held l.tid hin).leave hstep
  refine ⟨fun t => ?_, fun _ => hstores, fun t ht => ?_, fun t ht => ?_⟩
  · by_cases heq : t = l.tid
    · subst heq
      simp [hout]
    · simp [heq, hothers t heq]
  · by_cases heq : t = l.tid
    · subst heq
      simp only [Function.update_self, hout] at ht
      cases ht
    · simp only [Function.update_of_ne heq, hothers t heq] at ht
      cases ht
  · by_cases heq : t = l.tid
    · subst heq
      simpa only [Function.update_self] using hself
    · simpa only [Function.update_of_ne heq] using h.outside t (hothers t heq)

/-- A call in a section. -/
theorem inside (B : Backend call Stores shows) (h : Consistent Stores shows fed sent s)
    (hs : (lockedServer τ b call).lts.next s l = some s') (hev : Plain l.ev)
    (hl : l.ev ≠ .lock .file true) (hu : l.ev ≠ .unlock .file)
    (hin : (s.local_ l.tid).pc.holdsFile = true) :
    Consistent Stores shows fed
      (Function.update sent l.tid (sent l.tid ++ sentBytes l.ev)) s' := by
  obtain ⟨c, k, r, hc, hk, hr, rfl⟩ := lockedServer_next hs
  obtain ⟨hstep, -⟩ := Client.next_eq_some hc
  obtain ⟨-, hp, hmutex⟩ := Locked.mutexCall_frame hk
  have hkeep : c.pc.holdsFile = true := by
    rcases hstep.holdsFile with ⟨hev', -⟩ | ⟨hev', -⟩ | ⟨-, -, heq⟩
    · exact absurd hev' hl
    · exact absurd hev' hu
    · rw [heq, hin]
  have hothers : ∀ t, t ≠ l.tid → (s.local_ t).pc.holdsFile = false := by
    intro t ht
    rw [← Bool.not_eq_true]
    exact fun hhold => ht (h.eq_of_holds hhold hin)
  have hsome : k.fileMutex = some l.tid := (hmutex hl hu).trans ((h.mutex l.tid).mp hin)
  have hself := (h.held l.tid hin).next B hstep hev hu hr
  refine ⟨fun t => ?_, fun hnone => ?_, fun t ht => ?_, fun t ht => ?_⟩
  · by_cases heq : t = l.tid
    · subst heq
      simp [hkeep, hsome]
    · simp [heq, hothers t heq, hsome, Ne.symm heq]
  · rw [hsome] at hnone
    cases hnone
  · by_cases heq : t = l.tid
    · subst heq
      simpa only [Function.update_self] using hself
    · simp only [Function.update_of_ne heq, hothers t heq] at ht
      cases ht
  · by_cases heq : t = l.tid
    · subst heq
      simp only [Function.update_self, hkeep] at ht
      cases ht
    · simpa only [Function.update_of_ne heq] using h.outside t (hothers t heq)

/-- A call outside the sections. -/
theorem apart (B : Backend call Stores shows) (h : Consistent Stores shows fed sent s)
    (hs : (lockedServer τ b call).lts.next s l = some s') (hev : Plain l.ev)
    (hl : l.ev ≠ .lock .file true) (hu : l.ev ≠ .unlock .file)
    (hin : (s.local_ l.tid).pc.holdsFile = false) :
    Consistent Stores shows fed sent s' ∧ sentBytes l.ev = [] := by
  obtain ⟨c, k, r, hc, hk, hr, rfl⟩ := lockedServer_next hs
  obtain ⟨hstep, -⟩ := Client.next_eq_some hc
  obtain ⟨-, hp, hmutex⟩ := Locked.mutexCall_frame hk
  have hkeep : c.pc.holdsFile = false := by
    rcases hstep.holdsFile with ⟨hev', -⟩ | ⟨hev', -⟩ | ⟨-, -, heq⟩
    · exact absurd hev' hl
    · exact absurd hev' hu
    · rw [heq, hin]
  obtain ⟨hself, hsent, hfile⟩ := (h.outside l.tid hin).next hstep hev hin hl
  cases B.apart hfile hr
  have hfPos : Function.update k.fPos l.tid (s.shared.fPos l.tid) = s.shared.fPos := by
    rw [hp, Function.update_eq_self]
  rw [hfPos]
  refine ⟨⟨fun t => ?_, fun hnone => h.free ((hmutex hl hu).symm.trans hnone), fun t ht => ?_,
    fun t ht => ?_⟩, hsent⟩
  · rw [hmutex hl hu]
    by_cases heq : t = l.tid
    · subst heq
      rw [← h.mutex l.tid, hin]
      simp [hkeep]
    · simpa only [Function.update_of_ne heq] using h.mutex t
  · by_cases heq : t = l.tid
    · subst heq
      simp only [Function.update_self, hkeep] at ht
      cases ht
    · simp only [Function.update_of_ne heq] at ht ⊢
      exact h.held t ht
  · by_cases heq : t = l.tid
    · subst heq
      simpa only [Function.update_self] using hself
    · simp only [Function.update_of_ne heq] at ht ⊢
      exact h.outside t ht

/-- A step of the server. -/
theorem next (B : Backend call Stores shows) (h : Consistent Stores shows fed sent s)
    (hs : (lockedServer τ b call).lts.next s l = some s') (hev : Plain l.ev) :
    Consistent Stores shows (fed ++ (entered s l).toList)
      (Function.update sent l.tid (sent l.tid ++ sentBytes l.ev)) s' := by
  by_cases hl : l.ev = .lock .file true
  · have hsent : Function.update sent l.tid (sent l.tid ++ sentBytes l.ev) = sent := by
      rw [hl, sentBytes, List.append_nil, Function.update_eq_self]
      simp
    rw [hsent]
    exact h.lock B hs hl
  · rw [entered_of_ne hl, Option.toList_none, List.append_nil]
    by_cases hu : l.ev = .unlock .file
    · have hsent : Function.update sent l.tid (sent l.tid ++ sentBytes l.ev) = sent := by
        rw [hu, sentBytes, List.append_nil, Function.update_eq_self]
        simp
      rw [hsent]
      exact h.unlock B hs hu
    · cases hin : (s.local_ l.tid).pc.holdsFile with
      | true => exact h.inside B hs hev hl hu hin
      | false =>
        obtain ⟨h', hsent⟩ := h.apart B hs hev hl hu hin
        rwa [hsent, List.append_nil, Function.update_eq_self]

end Consistent

omit [DecidableEq τ] in
/-- Before the first connection. -/
theorem consistent_init {st : σ} (h : Stores st [] []) :
    Consistent Stores shows ([] : List (τ × Bytes)) (fun _ => []) (lockedServer.init τ st) := by
  refine ⟨fun t => by simp [lockedServer.init, Client.start, Pc.holdsFile], fun _ => h, nofun,
    fun t _ => ⟨rfl, nofun, .inl ⟨nofun, rfl⟩⟩⟩

/-- After any run without a failing system call and without a seek. -/
theorem Consistent.run (B : Backend call Stores shows) {st : σ} (hst : Stores st [] [])
    (hev : ∀ l ∈ tr, Plain l.ev)
    (h : (lockedServer τ b call).lts.run (lockedServer.init τ st) tr = some s) :
    Consistent Stores shows (processed (lockedServer τ b call) (lockedServer.init τ st) tr)
      (fun t => sentTo t tr) s := by
  have hrun : (∀ l ∈ tr, Plain l.ev) → Consistent Stores shows
      (processed (lockedServer τ b call) (lockedServer.init τ st) tr) (fun t => sentTo t tr) s := by
    refine Lts.run_history (I := fun tr s => (∀ l ∈ tr, Plain l.ev) → Consistent Stores shows
      (processed (lockedServer τ b call) (lockedServer.init τ st) tr) (fun t => sentTo t tr) s)
      (fun _ => consistent_init hst) ?_ h
    intro tr s l s' hrun ih hs hev
    have hs' := (ih fun x hx => hev x (by simp [hx])).next B hs (hev l (by simp))
    rw [processed, Lts.outputs_snoc hrun]
    have hsent : (fun t => sentTo t (tr ++ [l])) = Function.update (fun t => sentTo t tr) l.tid
        (sentTo l.tid tr ++ sentBytes l.ev) := by
      funext t
      rw [sentTo, Threads.labelsOf_append, sentOf_append]
      by_cases ht : t = l.tid
      · subst ht
        simp [Threads.labelsOf_cons_self, sentTo]
      · simp [Threads.labelsOf_cons_ne (Ne.symm ht), Function.update_of_ne ht, sentTo]
    rw [hsent]
    exact hs'
  exact hrun hev

omit [DecidableEq τ] in
/-- A thread has at most one chunk with a newline. -/
theorem Answered.eq {t : τ} {r : Bytes} (h : Answered shows fed t r) {cs : List (τ × Bytes)}
    {c : Bytes} (hfed : cs ++ [(t, c)] <+: fed) (hnl : c.any isNewline = true) :
    r = shows (cs.map Prod.snd ++ [c]) := by
  obtain ⟨before, c', later, hsplit, -, hun, rfl⟩ := h
  obtain ⟨rest, rfl⟩ := hfed
  have hother : (t, c) ∉ before ++ later := by
    intro hmem
    have := hun _ hmem rfl
    rw [hnl] at this
    cases this
  rw [List.append_assoc] at hsplit
  rcases List.append_eq_append_iff.mp hsplit with ⟨as, rfl, has⟩ | ⟨bs, rfl, hbs⟩
  · cases as with
    | nil =>
      cases has
      rw [List.append_nil]
    | cons a as =>
      cases has
      exact absurd (by simp) hother
  · cases bs with
    | nil =>
      cases hbs
      rw [List.append_nil]
    | cons b bs =>
      cases hbs
      exact absurd (by simp) hother

omit [DecidableEq τ] in
/-- The response to a chunk with a newline, once its thread is out of the section: what the store
shows right after the chunk. -/
theorem Consistent.response (h : Consistent Stores shows fed sent s) {cs : List (τ × Bytes)} {t : τ}
    {c : Bytes} (hfed : cs ++ [(t, c)] <+: fed) (hnl : c.any isNewline = true)
    (hout : (s.local_ t).pc.holdsFile = false) : sent t = shows (cs.map Prod.snd ++ [c]) := by
  rcases (h.outside t hout).got with ⟨hun, -⟩ | ⟨-, hans⟩
  · have hmem : (t, c) ∈ fed := hfed.subset (by simp)
    have := hun _ hmem rfl
    rw [hnl] at this
    cases this
  · exact hans.eq hfed hnl

end

end Aesd
