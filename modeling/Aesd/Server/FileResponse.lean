import Aesd.Server.Timestamp

/-!
# Responses with timestamps

The file build again, in runs in which no call fails: a client with a newline gets the whole file as
it is right after its chunk, with the chunks of all clients and the timestamps between them in the
order of their critical sections, although the timer thread and other clients wait for the mutex all
the time. The clients' part of the argument is that of `Backend`.
-/

namespace Aesd

open Threads (State Label)

variable {τ : Type*} [DecidableEq τ]

/-- The bytes that a call sent to the client. -/
def FileSys.sentBytes : FileSys → Bytes
  | .sys ev => Aesd.sentBytes ev
  | _ => []

/-- The bytes that client `t` got. -/
def sentToClient (t : Option τ) (tr : List (Label (Option τ) FileSys Env)) : Bytes :=
  ((Threads.callsOf t tr).map FileSys.sentBytes).flatten

/-- No system call fails, and no chunk asks for a seek. -/
def FileSys.Smooth (t : Option τ) : FileSys → Prop
  | .sys ev => Plain ev ∧ (t = none → ev ≠ .lock .file false)
  | _ => True

instance (t : Option τ) : DecidablePred (FileSys.Smooth t) := fun ev =>
  match ev with
  | .sys ev => inferInstanceAs (Decidable (Plain ev ∧ (t = none → ev ≠ .lock .file false)))
  | .keepRunning _ | .strftime _ | .nanosleep => isTrue trivial

namespace FileResponse

/-- The data of the sections, with their threads. -/
def fed (g : List (FileSection τ)) : List (Option τ × Bytes) := g.map fun x => (x.tid, x.data)

/-- What is left of a run: the sections, and what every client got. -/
abbrev Record (τ : Type*) := List (FileSection τ) × (Option τ → Bytes)

/-- The record after a call of thread `t`. -/
def record (g : Record τ) (t : Option τ) (w : Worker) (ev : FileSys) : Record τ :=
  (recordSection g.1 t w ev, Function.update g.2 t (g.2 t ++ ev.sentBytes))

/-- The file holds the data `cs`, and `part` of the next one. -/
def Stores (file : Option Bytes) (cs : List Bytes) (part : Bytes) : Prop :=
  file.getD [] = cs.flatten ++ part

/-- A thread in its section. -/
def Serves (g : Record τ) (t : Option τ) (w : Worker) (k : Locked (Option Bytes) (Option τ)) :
    Prop :=
  match w with
  | .client c =>
    t ≠ none ∧ InSection Stores List.flatten (fed g.1) t c.pc k.store (k.fPos t) (g.2 t)
  | .timer pc =>
    t = none ∧ ∃ before data, fed g.1 = before ++ [(none, data)] ∧
      match pc with
      | .open timestamp =>
        timestamp = data ∧ data ≠ [] ∧ Stores k.store (before.map Prod.snd) []
      | .write timestamp written => timestamp = data ∧ written < data.length ∧
        Stores k.store (before.map Prod.snd) (data.take written)
      | .close | .unlock => Stores k.store (before.map Prod.snd ++ [data]) []
      | _ => False

/-- A thread outside of it. -/
def Waits (g : Record τ) (t : Option τ) (w : Worker) : Prop :=
  match w with
  | .client c => t ≠ none ∧ Outside List.flatten (fed g.1) t c.pc (g.2 t)
  | .timer pc => t = none ∧ ∀ timestamp, pc = .lock timestamp → timestamp ≠ []

variable {g : List (FileSection τ)} {t u : Option τ} {w w' : Worker} {ev : FileSys}
  {k k' : Locked (Option Bytes) (Option τ)} {env : Env}

theorem fed_updateLast {f : FileSection τ → FileSection τ}
    (hf : ∀ x, (f x).tid = x.tid ∧ (f x).data = x.data) : fed (updateLast t f g) = fed g := by
  induction g with
  | nil => rfl
  | cons x g ih =>
    unfold updateLast
    split
    · exact congrArg ((x.tid, x.data) :: ·) ih
    · simp [fed, hf]

theorem fed_recordSection_of_ne (h : ev ≠ .sys (.lock .file true)) :
    fed (recordSection g t w ev) = fed g := by
  unfold recordSection
  split
  · exact absurd rfl h
  · exact fed_updateLast fun _ => ⟨rfl, rfl⟩
  · exact fed_updateLast fun _ => ⟨rfl, rfl⟩
  · rfl

theorem fed_recordSection_of_unlock : fed (recordSection g t w (.sys (.unlock .file))) = fed g :=
  fed_recordSection_of_ne (by simp)

omit [DecidableEq τ] in
theorem fed_concat (g : List (FileSection τ)) (x : FileSection τ) :
    fed (g ++ [x]) = fed g ++ [(x.tid, x.data)] := by
  simp [fed]

theorem enters {g : Record τ} (h : (timestampServer τ).Makes t w k ev env w' k')
    (hev : ev.Smooth t) (hin : w.holdsFile = false) (hin' : w'.holdsFile = true)
    (hW : Waits g t w) :
    k.fileMutex = none ∧ k'.fileMutex = some t ∧
      (Stores k.store ((fed g.1).map Prod.snd) [] → Serves (record g t w ev) t w' k') := by
  obtain ⟨-, hlock, -, -⟩ := timestampServer_service h.service
  rcases Worker.next_eq_some h.thread with
    ⟨c, c', ev, rfl, rfl, rfl, hstep⟩ | ⟨pc, pc', rfl, rfl, hstep⟩
  · obtain ⟨ht, hout⟩ := hW
    obtain rfl : ev = .lock .file true := by
      rcases hstep.holdsFile with ⟨hlock, -⟩ | ⟨-, hf, -⟩ | ⟨-, -, heq⟩
      · exact hlock
      · exact absurd (hin.symm.trans hf) (by simp)
      · exact absurd (hin.symm.trans (heq.symm.trans hin')) (by simp)
    obtain ⟨hnone, hsome⟩ := hlock rfl
    refine ⟨hnone, hsome, fun hstores => ?_⟩
    obtain ⟨k₁, r, -, hr, rfl⟩ := timestampServer_sys h.service
    cases hr
    obtain ⟨chunk, hpc, hsec⟩ := InSection.enter (p := k.fPos t) hout hstores hstep
    have hw : (Worker.client c).waitsWith = some chunk := by
      obtain ⟨pc, node⟩ := c
      obtain rfl : pc = .dataLock chunk := hpc
      rfl
    have hfed : fed (recordSection g.1 t (.client c) (.sys (.lock .file true))) =
        fed g.1 ++ [(t, chunk)] := by
      simp only [recordSection, hw, Option.map_some, Option.toList_some]
      exact fed_concat _ _
    refine ⟨ht, ?_⟩
    simp only [record, hfed, FileSys.sentBytes, Aesd.sentBytes, List.append_nil,
      Function.update_self]
    exact hsec
  · obtain ⟨rfl, hts⟩ := hW
    cases hstep with
    | @lock timestamp ok =>
      cases ok with
      | false => exact absurd rfl (hev.2 rfl)
      | true =>
        obtain ⟨hnone, hsome⟩ := hlock rfl
        refine ⟨hnone, hsome, fun hstores => ⟨rfl, fed g.1, timestamp, fed_concat _ _, rfl,
          hts timestamp rfl, ?_⟩⟩
        obtain ⟨k₁, r, -, hr, rfl⟩ := timestampServer_sys h.service
        cases hr
        exact hstores
    | goesOn | ends | format | sleep => cases hin'
    | _ => cases hin

theorem leaves {g : Record τ} (h : (timestampServer τ).Makes t w k ev env w' k')
    (hin : w.holdsFile = true) (hin' : w'.holdsFile = false) (hS : Serves g t w k) :
    k'.fileMutex = none ∧ Waits (record g t w ev) t w' ∧
      Stores k'.store ((fed (record g t w ev).1).map Prod.snd) [] := by
  obtain ⟨-, -, hunlock, -⟩ := timestampServer_service h.service
  rcases Worker.next_eq_some h.thread with
    ⟨c, c', ev, rfl, rfl, rfl, hstep⟩ | ⟨pc, pc', rfl, rfl, hstep⟩
  · obtain ⟨ht, hsec⟩ := hS
    obtain rfl : ev = .unlock .file := by
      rcases hstep.holdsFile with ⟨-, hf, -⟩ | ⟨hunlock, -⟩ | ⟨-, -, heq⟩
      · exact absurd (hin.symm.trans hf) (by simp)
      · exact hunlock
      · exact absurd (hin'.symm.trans (heq.trans hin)) (by simp)
    obtain ⟨hout, hstores⟩ := hsec.leave hstep
    obtain ⟨k₁, r, -, hr, rfl⟩ := timestampServer_sys h.service
    cases hr
    refine ⟨hunlock rfl, ⟨ht, ?_⟩, ?_⟩
    · simpa only [record, fed_recordSection_of_unlock, FileSys.sentBytes, Aesd.sentBytes,
        List.append_nil, Function.update_self] using hout
    · simpa only [record, fed_recordSection_of_unlock] using hstores
  · obtain ⟨rfl, before, data, hfed, hS⟩ := hS
    cases hstep with
    | unlock =>
      obtain ⟨k₁, r, -, hr, rfl⟩ := timestampServer_sys h.service
      cases hr
      refine ⟨hunlock rfl, ⟨rfl, fun data hdata => by cases hdata⟩, ?_⟩
      simpa only [record, fed_recordSection_of_unlock, hfed, List.map_append, List.map_cons,
        List.map_nil] using hS
    | write =>
      generalize Client.writeAllStep _ _ _ = out at hin'
      cases out <;> cases hin'
    | goesOn | ends | format | sleep => cases hin
    | _ => cases hin'

theorem works {g : Record τ} (h : (timestampServer τ).Makes t w k ev env w' k')
    (hev : ev.Smooth t) (hin : w.holdsFile = true) (hin' : w'.holdsFile = true)
    (hS : Serves g t w k) :
    k'.fileMutex = k.fileMutex ∧ Serves (record g t w ev) t w' k' := by
  obtain ⟨-, -, -, hframe⟩ := timestampServer_service h.service
  rcases Worker.next_eq_some h.thread with
    ⟨c, c', ev, rfl, rfl, rfl, hstep⟩ | ⟨pc, pc', rfl, rfl, hstep⟩
  · obtain ⟨ht, hsec⟩ := hS
    obtain ⟨hl, hu⟩ : ev ≠ .lock .file true ∧ ev ≠ .unlock .file := by
      rcases hstep.holdsFile with ⟨-, hf, -⟩ | ⟨-, -, hf⟩ | ⟨hl, hu, -⟩
      · exact absurd (hin.symm.trans hf) (by simp)
      · exact absurd (hin'.symm.trans hf) (by simp)
      · exact ⟨hl, hu⟩
    have hl' : FileSys.sys ev ≠ .sys (.lock .file true) := by simpa using hl
    have hu' : FileSys.sys ev ≠ .sys (.unlock .file) := by simpa using hu
    obtain ⟨k₁, r, -, hr, rfl⟩ := timestampServer_sys h.service
    refine ⟨hframe hl' hu', ht, ?_⟩
    simp only [record, fed_recordSection_of_ne hl', Function.update_self]
    exact hsec.next file_backend hstep hev.1 hu hr
  · obtain ⟨rfl, before, data, hfed, hS⟩ := hS
    have hfed' : ev ≠ .sys (.lock .file true) →
        fed (record g none (.timer pc) ev).1 = before ++ [(none, data)] := fun hne =>
      (fed_recordSection_of_ne hne).trans hfed
    cases hstep with
    | «open» =>
      obtain ⟨rfl, hne, hstores⟩ := hS
      obtain ⟨k₁, r, -, hr, rfl⟩ := timestampServer_sys h.service
      exact ⟨hframe (by simp) (by simp), rfl, before, _, hfed' (by simp), rfl,
        List.length_pos_iff.mpr hne, (file_backend.opened hstores hr).1⟩
    | openFails => cases hev.1
    | @write timestamp written ret hret =>
      obtain ⟨rfl, hlt, hstores⟩ := hS
      obtain ⟨k₁, r, -, hr, rfl⟩ := timestampServer_sys h.service
      have hpos : 0 < ret := hev.1
      obtain ⟨n, rfl⟩ : ∃ n : Nat, ret = n := ⟨ret.toNat, by omega⟩
      rw [List.length_drop] at hret
      refine ⟨hframe (by simp) (by simp), rfl, before, _, hfed' (by simp), ?_⟩
      by_cases hmore : written + n < timestamp.length
      · rw [Client.writeAllStep_of_lt (by omega) hmore]
        exact ⟨rfl, hmore, file_backend.more hstores (by omega) hmore hr⟩
      · have hdone : written + n = timestamp.length := by omega
        rw [Client.writeAllStep_of_eq (by omega) hdone]
        exact file_backend.done hstores (by omega) hdone hr
    | close =>
      obtain ⟨k₁, r, -, hr, rfl⟩ := timestampServer_sys h.service
      cases hr
      exact ⟨hframe (by simp) (by simp), rfl, before, data, hfed' (by simp), hS⟩
    | lock => cases hin
    | unlock => cases hin'
    | goesOn | ends | format | sleep => cases hin

omit [DecidableEq τ] in
/-- What a thread in its section depends on. -/
theorem Serves.congr {g g' : Record τ} (h : Serves g u w k) (hfed : fed g'.1 = fed g.1)
    (hsent : g'.2 u = g.2 u) (hstore : k'.store = k.store) (hpos : k'.fPos u = k.fPos u) :
    Serves g' u w k' := by
  unfold Serves at *
  rwa [hfed, hsent, hstore, hpos]

theorem Waits.others {g : Record τ} (h : Waits g u w') (hu : u ≠ t) :
    Waits (record g t w ev) u w' := by
  cases w' with
  | timer pc => exact h
  | client c =>
    obtain ⟨hne, hout⟩ := h
    refine ⟨hne, ?_⟩
    simp only [record, Function.update_of_ne hu]
    by_cases hev : ev = .sys (.lock .file true)
    · subst hev
      cases hw : w.waitsWith with
      | none => simpa only [recordSection, hw, Option.map_none, Option.toList_none, List.append_nil]
      | some data =>
        simp only [recordSection, hw, Option.map_some, Option.toList_some, fed_concat]
        exact hout.entered hu.symm
    · rwa [fed_recordSection_of_ne hev]

theorem apart {g : Record τ} (h : (timestampServer τ).Makes t w k ev env w' k')
    (hev : ev.Smooth t) (hin : w.holdsFile = false) (hin' : w'.holdsFile = false)
    (hW : Waits g t w) :
    k'.fileMutex = k.fileMutex ∧ Waits (record g t w ev) t w' ∧
      fed (record g t w ev).1 = fed g.1 ∧ k'.store = k.store ∧ ∀ u, u ≠ t → k'.fPos u = k.fPos u := by
  obtain ⟨-, -, -, hframe⟩ := timestampServer_service h.service
  rcases Worker.next_eq_some h.thread with
    ⟨c, c', ev, rfl, rfl, rfl, hstep⟩ | ⟨pc, pc', rfl, rfl, hstep⟩
  · obtain ⟨ht, hout⟩ := hW
    obtain ⟨hl, hu⟩ : ev ≠ .lock .file true ∧ ev ≠ .unlock .file := by
      rcases hstep.holdsFile with ⟨-, -, hf⟩ | ⟨-, hf, -⟩ | ⟨hl, hu, -⟩
      · exact absurd (hin'.symm.trans hf) (by simp)
      · exact absurd (hin.symm.trans hf) (by simp)
      · exact ⟨hl, hu⟩
    obtain ⟨hout', hsent, hfile⟩ := hout.next hstep hev.1 hin hl
    have hl' : FileSys.sys ev ≠ .sys (.lock .file true) := by simpa using hl
    have hu' : FileSys.sys ev ≠ .sys (.unlock .file) := by simpa using hu
    obtain ⟨k₁, r, -, hr, rfl⟩ := timestampServer_sys h.service
    cases file_backend.apart hfile hr
    refine ⟨hframe hl' hu', ⟨ht, ?_⟩, fed_recordSection_of_ne hl', rfl,
      fun u hu => Function.update_of_ne hu _ _⟩
    simpa only [record, fed_recordSection_of_ne hl', FileSys.sentBytes, hsent, List.append_nil,
      Function.update_self] using hout'
  · obtain ⟨rfl, hts⟩ := hW
    cases hstep with
    | goesOn | ends | sleep =>
      cases h.service
      exact ⟨rfl, ⟨rfl, nofun⟩, rfl, rfl, fun _ _ => rfl⟩
    | @format timeinfo =>
      cases h.service
      refine ⟨rfl, ⟨rfl, fun timestamp heq => ?_⟩, rfl, rfl, fun _ _ => rfl⟩
      cases heq
      exact timestamp_ne_nil timeinfo
    | lock => cases hin'
    | _ => cases hin

/-- `file_mutex`, the file behind it, and the responses. -/
def guard (τ : Type*) [DecidableEq τ] : (timestampServer τ).Guarded (Record τ) where
  holder := Locked.fileMutex
  inside := Worker.holdsFile
  record := record
  Allowed t ev := ev.Smooth t
  Free g k := Stores k.store ((fed g.1).map Prod.snd) []
  In := Serves
  Out := Waits
  enters := enters
  leaves h _ hin hin' hS := leaves h hin hin' hS
  works := works
  apart h hev hin hin' hW := by
    obtain ⟨hholder, hW', hfed, hstore, hpos⟩ := apart h hev hin hin' hW
    refine ⟨hholder, hW', fun hstores => ?_, fun u d hu hS => ?_⟩
    · rwa [hfed, hstore]
    · exact hS.congr hfed (Function.update_of_ne hu _ _) hstore (hpos u hu)
  others _ _ hu hW := hW.others hu

/-- Before the first call. -/
theorem guard_init : (guard τ).Ok ([], fun _ => []) (timestampServer.init τ) where
  mutex t := by cases t <;> exact ⟨nofun, nofun⟩
  free _ := rfl
  held t ht := by cases t <;> cases ht
  outside t _ := by
    cases t with
    | none => exact ⟨rfl, nofun⟩
    | some u => exact ⟨nofun, rfl, nofun, .inl ⟨nofun, rfl⟩⟩

theorem sentToClient_snoc (tr : List (Label (Option τ) FileSys Env))
    (l : Label (Option τ) FileSys Env) :
    (fun t => sentToClient t (tr ++ [l])) = Function.update (fun t => sentToClient t tr) l.tid
      (sentToClient l.tid tr ++ l.ev.sentBytes) := by
  funext t
  by_cases ht : t = l.tid
  · subst ht
    simp [sentToClient, Threads.callsOf]
  · simp [sentToClient, Threads.callsOf, Function.update_of_ne ht, Ne.symm ht]

/-- The invariant after any run in which no call fails. -/
theorem guard_run {tr : List (Label (Option τ) FileSys Env)}
    {s : State (Option τ) Worker (Locked (Option Bytes) (Option τ))}
    (h : (timestampServer τ).lts.run (timestampServer.init τ) tr = some s)
    (hev : ∀ l ∈ tr, l.ev.Smooth l.tid) :
    (guard τ).Ok (sectionsOf tr, fun t => sentToClient t tr) s := by
  refine Threads.Guarded.run (fun tr => (sectionsOf tr, fun t => sentToClient t tr)) guard_init ?_ h
    hev
  intro tr s l hrun
  exact Prod.ext (Threads.history_snoc hrun l) (sentToClient_snoc tr l)

omit [DecidableEq τ] in
/-- A client that is out of its section, of its last chunk with a newline. -/
theorem Waits.response {g : Record τ} {before after : List (FileSection τ)} {x : FileSection τ}
    (h : Waits g t w) (ht : t ≠ none) (hg : g.1 = before ++ x :: after) (hx : x.tid = t)
    (hnl : x.data.any isNewline = true) :
    g.2 t = ((before ++ [x]).map FileSection.data).flatten := by
  cases w with
  | timer pc => exact absurd h.1 ht
  | client c =>
    have hprefix : fed before ++ [(t, x.data)] <+: fed g.1 := by
      subst hx
      rw [← fed_concat, hg]
      exact ⟨fed after, by simp [fed]⟩
    rcases h.2.got with ⟨hun, -⟩ | ⟨-, hans⟩
    · have hmem : (t, x.data) ∈ fed g.1 := hprefix.subset (by simp)
      have hnone := hun _ hmem rfl
      rw [hnl] at hnone
      cases hnone
    · rw [hans.eq hprefix hnl]
      simp [fed, Function.comp_def]

end FileResponse

/-- In the file build, in any interleaving of the clients and the timer thread in which no call
fails: once a client is out of the critical section of a chunk with a newline, it has got the data of
all critical sections up to its own, chunks and timestamps, and nothing else. -/
theorem file_response_timestamps (tr : List (Label (Option τ) FileSys Env))
    (s : State (Option τ) Worker (Locked (Option Bytes) (Option τ)))
    (h : (timestampServer τ).lts.run (timestampServer.init τ) tr = some s)
    (hev : ∀ l ∈ tr, l.ev.Smooth l.tid) (before after : List (FileSection τ)) (x : FileSection τ)
    (hsections : sectionsOf tr = before ++ x :: after) (hx : x.tid ≠ none)
    (hnl : x.data.any isNewline = true) (hout : (s.local_ x.tid).holdsFile = false) :
    sentToClient x.tid tr = ((before ++ [x]).map FileSection.data).flatten :=
  ((FileResponse.guard_run h hev).outside x.tid hout).response hx hsections rfl hnl

/-- The timer thread, and a client that sends a line and gets both. -/
def stampedLine : List (Label (Option Nat) FileSys Env) :=
  fileCalls none [.keepRunning true, .strftime someTm, .sys (.lock .file true), .sys (.open true),
      .sys (.write (timestamp someTm) 10), .sys (.write ((timestamp someTm).drop 10) 33),
      .sys .close, .sys (.unlock .file)] ++
    fileCalls (some 0) ((toFirstRecv ++ writesChunk [97, 10] ++
      fileResponds (timestamp someTm ++ [97, 10]) ++ releases).map .sys)

theorem file_response_timestamps_line :
    sentToClient (some 0) stampedLine = timestamp someTm ++ [97, 10] := by
  have hrun : (((timestampServer Nat).lts.run (timestampServer.init Nat) stampedLine).map fun s =>
      (s.local_ (some 0)).holdsFile) = some false := by decide
  obtain ⟨s, hs, hout⟩ := Option.map_eq_some_iff.mp hrun
  refine (file_response_timestamps stampedLine s hs (by decide)
    [{ tid := none, data := timestamp someTm, part := timestamp someTm, failed := false }] []
    { tid := some 0, data := [97, 10], part := [97, 10], failed := false } (by decide) (by simp)
    (by decide) hout).trans ?_
  decide

end Aesd
