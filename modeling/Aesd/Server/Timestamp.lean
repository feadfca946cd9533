import Aesd.Lib.Guarded
import Aesd.Server.FileBackend
import Mathlib.Data.Nat.Digits.Lemmas

/-!
# The timer thread (`timestamp_thread` in `thread_manager.c`)

In the file build a thread of its own appends a timestamp to the file that the clients write, under
the same mutex. Here it runs beside any number of clients, and any call may fail.

* `timestamp`: the text that `strftime` writes. `timestamp_line`: it is one line, and it fits.
* `timestampServer`: the clients and the timer thread over the file.
* `file_sections`: the file is the concatenation of what the critical sections wrote, in their order;
  each is the whole chunk or timestamp unless its `open` or `write` failed.
-/

namespace Aesd

open Threads (State Label)

/-! ## The text -/

/-- `struct tm`, as `localtime` fills it. -/
structure Tm where
  sec : Fin 61
  min : Fin 60
  hour : Fin 24
  mday : Fin 32
  mon : Fin 12
  /-- `tm_year + 1900`; `tm_year` is an `int`. -/
  year : Nat
  wday : Fin 7
  /-- `tm_gmtoff`, its sign and its minutes. -/
  west : Bool
  offset : Fin 6000
  year_pos : 0 < year
  year_lt : year < 10 ^ 10
  deriving DecidableEq

/-- A digit of a decimal. -/
def digit (n : Nat) : UInt8 := UInt8.ofNat (48 + n % 10)

/-- `%d`, `%H`, `%M` and `%S`. -/
def twoDigits (n : Nat) : Bytes := [digit (n / 10), digit n]

/-- `%a`, in the C locale. -/
def weekday : Fin 7 → Bytes
  | 0 => [83, 117, 110]
  | 1 => [77, 111, 110]
  | 2 => [84, 117, 101]
  | 3 => [87, 101, 100]
  | 4 => [84, 104, 117]
  | 5 => [70, 114, 105]
  | 6 => [83, 97, 116]

/-- `%b`. -/
def month : Fin 12 → Bytes
  | 0 => [74, 97, 110]
  | 1 => [70, 101, 98]
  | 2 => [77, 97, 114]
  | 3 => [65, 112, 114]
  | 4 => [77, 97, 121]
  | 5 => [74, 117, 110]
  | 6 => [74, 117, 108]
  | 7 => [65, 117, 103]
  | 8 => [83, 101, 112]
  | 9 => [79, 99, 116]
  | 10 => [78, 111, 118]
  | 11 => [68, 101, 99]

/-- `"timestamp: "`. -/
def timestampPrefix : Bytes := [116, 105, 109, 101, 115, 116, 97, 109, 112, 58, 32]

/-- `"%a, %d %b %Y %H:%M:%S %z"`. -/
def Tm.rfc2822 (tm : Tm) : Bytes :=
  weekday tm.wday ++ [44, 32] ++ twoDigits tm.mday ++ [32] ++ month tm.mon ++ [32] ++
    (Nat.digits 10 tm.year).reverse.map digit ++ [32] ++ twoDigits tm.hour ++ [58] ++
    twoDigits tm.min ++ [58] ++ twoDigits tm.sec ++ [32] ++ [if tm.west then 45 else 43] ++
    twoDigits (tm.offset / 60) ++ twoDigits (tm.offset % 60)

/-- The text in the buffer `timestamp`. -/
def timestamp (tm : Tm) : Bytes := timestampPrefix ++ tm.rfc2822 ++ [newline]

theorem isNewline_digit (n : Nat) : isNewline (digit n) = false := by
  have hlt : n % 10 < 10 := Nat.mod_lt _ (by decide)
  unfold isNewline digit newline
  rw [beq_eq_false_iff_ne, ne_eq, ← UInt8.toNat_inj, UInt8.toNat_ofNat']
  simp
  omega

theorem any_weekday : ∀ d : Fin 7, (weekday d).any isNewline = false := by decide

theorem any_month : ∀ m : Fin 12, (month m).any isNewline = false := by decide

theorem any_map_digit (ns : List Nat) : (ns.map digit).any isNewline = false := by
  simp [isNewline_digit]

theorem length_weekday : ∀ d : Fin 7, (weekday d).length = 3 := by decide

theorem length_month : ∀ m : Fin 12, (month m).length = 3 := by decide

/-- A timestamp is one line, and `strftime` has room for it and its zero byte. -/
theorem timestamp_line (tm : Tm) :
    LineLog.IsLine isNewline (timestamp tm) ∧ (timestamp tm).length < 100 := by
  constructor
  · have hbody : (timestampPrefix ++ tm.rfc2822).any isNewline = false := by
      have hsign : isNewline (if tm.west then 45 else 43) = false := by cases tm.west <;> decide
      have hprefix : timestampPrefix.any isNewline = false := by decide
      have h32 : isNewline 32 = false := by decide
      have h44 : isNewline 44 = false := by decide
      have h58 : isNewline 58 = false := by decide
      simp only [Tm.rfc2822, twoDigits, List.any_append, List.any_cons, List.any_nil, any_weekday,
        any_month, any_map_digit, isNewline_digit, hsign, hprefix, h32, h44, h58, Bool.or_self]
    exact ⟨_, newline, rfl, by decide, fun b hb => by simpa using List.any_eq_false.mp hbody b hb⟩
  · have hyear : (Nat.digits 10 tm.year).length ≤ 10 :=
      (Nat.digits_length_le_iff (by decide) _).mpr tm.year_lt
    simp [timestamp, timestampPrefix, Tm.rfc2822, twoDigits, length_weekday, length_month]
    omega

theorem timestamp_ne_nil (tm : Tm) : timestamp tm ≠ [] := (timestamp_line tm).1.ne_nil

/-! ## The threads of the file build -/

/-- A call in the file build: a system call, or what only `timestamp_thread` does. -/
inductive FileSys where
  | sys (ev : Sys)
  /-- The test of `keep_running`. -/
  | keepRunning (on : Bool)
  /-- `time`, `localtime` and `strftime`. -/
  | strftime (timeinfo : Tm)
  | nanosleep
  deriving DecidableEq

/-- The next call of `timestamp_thread`, with the text that is still needed. -/
inductive TimestampPc where
  /-- `while (keep_running)`. -/
  | check
  | format
  | lock (timestamp : Bytes)
  | open (timestamp : Bytes)
  /-- In `write_all`, after `written` bytes. -/
  | write (timestamp : Bytes) (written : Nat)
  | close
  | unlock
  | sleep
  | ended
  deriving DecidableEq, Repr

namespace TimestampPc

/-- Between `pthread_mutex_lock(&file_mutex)` and the unlock. -/
def holdsFile : TimestampPc → Bool
  | .open _ | .write _ _ | .close | .unlock => true
  | _ => false

/-- After an iteration of `write_all`, whose result is not looked at. -/
def afterWriteAll (timestamp : Bytes) : Client.WriteAll → TimestampPc
  | .more written => .write timestamp written
  | .done _ => .close

/-- The next place, when the thread's next call is `ev`. -/
def next : TimestampPc → FileSys → Option TimestampPc
  | .check, .keepRunning on => some (if on then .format else .ended)
  | .format, .strftime timeinfo => some (.lock (timestamp timeinfo))
  -- the result of the lock is not looked at
  | .lock timestamp, .sys (.lock .file _) => some (.open timestamp)
  | .open timestamp, .sys (.open ok) => some (if ok then .write timestamp 0 else .unlock)
  | .write timestamp written, .sys (.write bs ret) =>
    if bs = timestamp.drop written ∧ ret ≤ bs.length then
      some (afterWriteAll timestamp (Client.writeAllStep timestamp.length written ret))
    else none
  | .close, .sys .close => some .unlock
  | .unlock, .sys (.unlock .file) => some .sleep
  | .sleep, .nanosleep => some .check
  | _, _ => none

end TimestampPc

/-- A thread that uses the file. -/
inductive Worker where
  | client (c : Client)
  | timer (pc : TimestampPc)
  deriving DecidableEq, Repr

namespace Worker

/-- In the critical section of `file_mutex`. -/
def holdsFile : Worker → Bool
  | .client c => c.pc.holdsFile
  | .timer pc => pc.holdsFile

/-- The data with which the thread waits for `file_mutex`. -/
def waitsWith : Worker → Option Bytes
  | .client ⟨.dataLock chunk, _⟩ => some chunk
  | .timer (.lock timestamp) => some timestamp
  | _ => none

/-- The programs of the threads. -/
def lts : Lts Worker FileSys where
  next
    | .client c, .sys ev => ((Client.lts .file).next c ev).map .client
    | .client _, _ => none
    | .timer pc, ev => (pc.next ev).map .timer

end Worker

/-- The clients, and the timer thread `none`, over the file. -/
def timestampServer (τ : Type*) [DecidableEq τ] :
    Threads (Option τ) Worker (Locked (Option Bytes) (Option τ)) FileSys Env where
  thread := Worker.lts
  service k t ev env :=
    match ev with
    | .sys ev => (fileServer (Option τ)).service k t ev env
    | _ => some k

/-- Before the first call: there is no file. -/
def timestampServer.init (τ : Type*) :
    State (Option τ) Worker (Locked (Option Bytes) (Option τ)) where
  local_ t := if t.isSome then .client .start else .timer .check
  shared := (fileServer.init (Option τ)).shared

/-! ## What a call does -/

/-- The transitions of `timestamp_thread`. -/
inductive TimestampPc.Step : TimestampPc → FileSys → TimestampPc → Prop
  | goesOn : Step .check (.keepRunning true) .format
  | ends : Step .check (.keepRunning false) .ended
  | format {timeinfo : Tm} : Step .format (.strftime timeinfo) (.lock (timestamp timeinfo))
  | lock {timestamp : Bytes} (ok : Bool) :
    Step (.lock timestamp) (.sys (.lock .file ok)) (.open timestamp)
  | open {timestamp : Bytes} : Step (.open timestamp) (.sys (.open true)) (.write timestamp 0)
  | openFails {timestamp : Bytes} : Step (.open timestamp) (.sys (.open false)) .unlock
  | write {timestamp : Bytes} {written : Nat} {ret : Int}
      (hret : ret ≤ (timestamp.drop written).length) :
    Step (.write timestamp written) (.sys (.write (timestamp.drop written) ret))
      (TimestampPc.afterWriteAll timestamp (Client.writeAllStep timestamp.length written ret))
  | close : Step .close (.sys .close) .unlock
  | unlock : Step .unlock (.sys (.unlock .file)) .sleep
  | sleep : Step .sleep .nanosleep .check

theorem TimestampPc.step_of_next {pc pc' : TimestampPc} {ev : FileSys} (h : pc.next ev = some pc') :
    pc.Step ev pc' := by
  unfold TimestampPc.next at h
  split at h
  · rename_i on
    cases on <;> cases h <;> constructor
  · cases h
    exact .format
  · cases h
    exact .lock _
  · rename_i ok
    cases ok <;> cases h <;> constructor
  · split at h
    · rename_i hbs
      obtain ⟨rfl, hret⟩ := hbs
      cases h
      exact .write hret
    · cases h
  · cases h
    exact .close
  · cases h
    exact .unlock
  · cases h
    exact .sleep
  · cases h

/-- How far a thread is with its critical section. `last` and `ended`: the thread has no further
one. -/
inductive Stage where
  | outside (ended : Bool)
  /-- Before the `open` of the data. -/
  | opening (data : Bytes)
  /-- In `write_all`, after `written` bytes. -/
  | writing (data : Bytes) (written : Nat)
  /-- With the file as the section leaves it. -/
  | done (last : Bool)
  /-- At a place that the file build does not reach. -/
  | astray

/-- In the critical section. -/
def Stage.inside : Stage → Bool
  | .outside _ => false
  | _ => true

/-- The stage at a place of `handle_client`. -/
def Pc.stage : Pc → Stage
  | .dataOpen chunk => .opening chunk
  | .write chunk written => .writing chunk written
  | .close .recv | .unlock .recv => .done false
  | .lseek | .read .cleanup | .send .cleanup _ _ | .close .cleanup | .unlock .cleanup => .done true
  | .seekOpen _ | .ioctl _ | .reclose | .reopen | .read .recv | .send .recv _ _ => .astray
  | pc => .outside pc.ended

/-- The stage at a place of `timestamp_thread`. -/
def TimestampPc.stage : TimestampPc → Stage
  | .open timestamp => .opening timestamp
  | .write timestamp written => .writing timestamp written
  | .close | .unlock => .done false
  | .ended => .outside true
  | _ => .outside false

def Worker.stage : Worker → Stage
  | .client c => c.pc.stage
  | .timer pc => pc.stage

/-- A call that neither changes the file nor takes or releases its mutex. -/
def FileSys.quiet : FileSys → Bool
  | .sys (.lock .file true) | .sys (.unlock .file) | .sys (.open false) | .sys (.write _ _) => false
  | _ => true

/-- What a call does to the stage of a thread. A client whose `open` or `write` fails has no further
section; the timer thread goes on. -/
inductive Stage.Step (client : Bool) (waits : Option Bytes) : Stage → FileSys → Stage → Prop
  | enters {data : Bytes} (hw : waits = some data) :
    Step client waits (.outside false) (.sys (.lock .file true)) (.opening data)
  /-- A seek command. -/
  | skips (hw : waits = none) :
    Step client waits (.outside false) (.sys (.lock .file true)) (.done false)
  | opens {data : Bytes} : Step client waits (.opening data) (.sys (.open true)) (.writing data 0)
  | openFails {data : Bytes} :
    Step client waits (.opening data) (.sys (.open false)) (.done client)
  | more {data : Bytes} {written : Nat} {ret : Int}
      (hret : 0 < ret ∧ written + ret.toNat < data.length ∨ ret = -eintr) :
    Step client waits (.writing data written) (.sys (.write (data.drop written) ret))
      (.writing data (written + ret.toNat))
  | whole {data : Bytes} {written : Nat} {ret : Int} {last : Bool} (hret : 0 < ret)
      (hdone : data.length ≤ written + ret.toNat) :
    Step client waits (.writing data written) (.sys (.write (data.drop written) ret)) (.done last)
  | fails {data : Bytes} {written : Nat} {ret : Int} (hret : ret ≤ 0 ∧ ret ≠ -eintr) :
    Step client waits (.writing data written) (.sys (.write (data.drop written) ret)) (.done client)
  | rests {last last' : Bool} {ev : FileSys} (hev : ev.quiet = true)
      (hlast : last = true → last' = true) : Step client waits (.done last) ev (.done last')
  | leaves {last : Bool} :
    Step client waits (.done last) (.sys (.unlock .file)) (.outside last)
  | apart {ended ended' : Bool} {ev : FileSys} (hev : ev.quiet = true)
      (hended : ended = true → ended' = true) :
    Step client waits (.outside ended) ev (.outside ended')

variable {waits : Option Bytes}

/-- An iteration of `write_all`: more to write, all written, or a failure. -/
theorem writeAllStep_elim {data : Bytes} {written : Nat} {ret : Int} {P : Client.WriteAll → Prop}
    (more : 0 < ret ∧ written + ret.toNat < data.length ∨ ret = -eintr →
      P (.more (written + ret.toNat)))
    (whole : 0 < ret → data.length ≤ written + ret.toNat → P (.done (written + ret.toNat : Nat)))
    (fails : ret ≤ 0 ∧ ret ≠ -eintr → ∀ r, r = -1 ∨ r = (written : Int) → P (.done r)) :
    P (Client.writeAllStep data.length written ret) := by
  unfold Client.writeAllStep
  split
  · split
    · rename_i hintr
      have := more (.inr hintr)
      rwa [Int.toNat_of_nonpos (by omega)] at this
    · rename_i hne
      exact fails ⟨by omega, hne⟩ _ (.inl rfl)
  · split
    · exact fails ⟨by omega, by unfold eintr; omega⟩ _ (.inr rfl)
    · split
      · exact more (.inl ⟨by omega, by omega⟩)
      · exact whole (by omega) (by omega)

theorem TimestampPc.Step.stage {pc pc' : TimestampPc} {ev : FileSys} (h : pc.Step ev pc')
    (hlock : ev ≠ .sys (.lock .file false)) :
    Stage.Step false (Worker.timer pc).waitsWith pc.stage ev pc'.stage := by
  cases h with
  | lock ok =>
    cases ok with
    | false => exact absurd rfl hlock
    | true => exact .enters rfl
  | «open» => exact .opens
  | openFails => exact .openFails
  | write hret =>
    apply writeAllStep_elim (P := fun w => Stage.Step false _ _ _ (afterWriteAll _ w).stage)
    · exact fun hret => .more hret
    · exact fun hret hdone => .whole hret hdone
    · exact fun hret _ _ => .fails hret
  | close => exact .rests rfl id
  | unlock => exact .leaves
  | goesOn => exact .apart rfl nofun
  | ends => exact .apart rfl nofun
  | format => exact .apart rfl nofun
  | sleep => exact .apart rfl nofun

/-- In the file build the places of the device build are not reached. -/
theorem Client.Step.stage {node : Bool} {pc pc' : Pc} {ev : Sys}
    (h : Client.Step .file node pc ev pc') (hstray : pc.stage ≠ .astray)
    (hwritten : ∀ data written, pc.stage = .writing data written → written < data.length) :
    Stage.Step true (Worker.client ⟨pc, node⟩).waitsWith pc.stage (.sys ev) pc'.stage := by
  cases h with
  | recv hne hfits =>
    exact Client.dispatch_elim
      (P := fun pc => Stage.Step true _ (.outside false) _ pc.stage) (.apart rfl nofun)
      (fun _ => .apart rfl nofun) (.apart rfl nofun)
  | dataLock => exact .enters rfl
  | seekSkip => exact .skips rfl
  | dataOpen => exact .opens
  | dataOpenFails => exact .openFails
  | @write chunk written ret hret =>
    have hlt := hwritten chunk written rfl
    apply writeAllStep_elim
      (P := fun w => Stage.Step true _ _ _ (Client.afterWriteAll _ chunk w).stage)
    · exact fun hret => .more hret
    · intro hpos hdone
      unfold Client.afterWriteAll Client.afterWrite
      split
      · rename_i heq
        cases heq
      · split
        · split <;> exact .whole hpos hdone
        · exact .whole hpos hdone
    · intro hfail r hr
      have hne : r ≠ (chunk.length : Int) := by omega
      simp only [Client.afterWriteAll, if_neg hne]
      exact .fails hfail
  | lseek => exact .rests rfl id
  | lseekFails => exact .rests rfl id
  | @read after bs hfits =>
    cases after with
    | recv => exact absurd rfl hstray
    | cleanup =>
      exact Client.afterRead_elim (P := fun pc => Stage.Step true _ (.done true) _ pc.stage) _
        (.rests rfl id) fun _ => .rests rfl id
  | @send after bs written ret hret =>
    cases after with
    | recv => exact absurd rfl hstray
    | cleanup =>
      exact Client.afterSendAll_elim (P := fun pc => Stage.Step true _ (.done true) _ pc.stage) _ _
        (fun _ => .rests rfl id) (.rests rfl id) (.rests rfl id)
  | @close after => cases after <;> exact .rests rfl id
  | @unlock after => cases after <;> exact .leaves
  | seekOpen | seekOpenFails | ioctl | ioctlFails | reclose | reopen | reopenFails =>
    exact absurd rfl hstray
  | seekLock hb => cases hb
  | addLock ok | markLock ok => cases ok <;> exact .apart rfl (by simp [Pc.ended])
  | _ => exact .apart rfl (by simp [Pc.ended])

namespace Worker

def isClient : Worker → Bool
  | .client _ => true
  | .timer _ => false

/-- What a thread can put into the file. -/
def Proper (client : Bool) (data : Bytes) : Prop :=
  data ≠ [] ∧ (client = false → ∃ timeinfo, data = timestamp timeinfo)

variable {w w' : Worker} {ev : FileSys} {data : Bytes}

/-- A step of a thread: of a client or of the timer thread. -/
theorem next_eq_some (h : lts.next w ev = some w') :
    (∃ c c' ev', w = .client c ∧ ev = .sys ev' ∧ w' = .client c' ∧
        Client.Step .file c.node c.pc ev' c'.pc) ∨
      ∃ pc pc', w = .timer pc ∧ w' = .timer pc' ∧ pc.Step ev pc' := by
  cases w with
  | client c =>
    cases ev with
    | sys ev =>
      obtain ⟨c', hc, rfl⟩ := Option.map_eq_some_iff.mp h
      exact .inl ⟨c, c', ev, rfl, rfl, rfl, (Client.next_eq_some hc).1⟩
    | _ => cases h
  | timer pc =>
    obtain ⟨pc', hpc, rfl⟩ := Option.map_eq_some_iff.mp h
    exact .inr ⟨pc, pc', rfl, rfl, TimestampPc.step_of_next hpc⟩

theorem waits_client {node : Bool} {pc pc' : Pc} {ev : Sys} (h : Client.Step .file node pc ev pc')
    (hpc' : pc' = .dataLock data) : data ≠ [] := by
  cases h with
  | recv hne hfits =>
    obtain rfl := Client.chunk_dispatch (congrArg Pc.chunk hpc')
    exact hne
  | write => exact absurd hpc' (Client.afterWriteAll_elim (P := fun pc => pc ≠ .dataLock data) _
      (fun _ => nofun) nofun nofun fun _ => nofun)
  | read => exact absurd hpc' (Client.afterRead_elim (P := fun pc => pc ≠ .dataLock data) _
      nofun fun _ => nofun)
  | send => exact absurd hpc' (Client.afterSendAll_elim (P := fun pc => pc ≠ .dataLock data) _ _
      (fun _ => nofun) nofun nofun)
  | @unlock after => cases after <;> cases hpc'
  | _ => cases hpc'

/-- A client waits with a chunk that it has received, the timer thread with a timestamp. -/
theorem waits_proper (h : lts.next w ev = some w') (hw : w'.waitsWith = some data) :
    Proper w'.isClient data := by
  rcases next_eq_some h with ⟨c, c', ev', rfl, rfl, rfl, hstep⟩ | ⟨pc, pc', rfl, rfl, hstep⟩
  · obtain ⟨pc', node'⟩ := c'
    unfold waitsWith at hw
    split at hw
    · rename_i heq
      cases heq
      cases hw
      exact ⟨waits_client hstep rfl, nofun⟩
    · rename_i heq
      cases heq
    · cases hw
  · cases hstep with
    | @format timeinfo =>
      cases hw
      exact ⟨timestamp_ne_nil timeinfo, fun _ => ⟨timeinfo, rfl⟩⟩
    | @write timestamp written ret hret =>
      generalize Client.writeAllStep _ _ _ = w at hw
      cases w <;> cases hw
    | _ => cases hw

end Worker

/-! ## What the sections wrote -/

variable {τ : Type*} [DecidableEq τ]

/-- A critical section: its thread, what the thread had to write, what of it the file got, and
whether its `open` or `write` failed. -/
structure FileSection (τ : Type*) where
  tid : Option τ
  data : Bytes
  part : Bytes
  failed : Bool
  deriving DecidableEq

/-- After a `write` of `bs`, with its result. -/
def FileSection.write (x : FileSection τ) (bs : Bytes) (ret : Int) : FileSection τ :=
  { x with part := x.part ++ bs.take ret.toNat, failed := x.failed || (ret ≤ 0 && ret != -eintr) }

/-- The last section of thread `t` becomes `f` of it. -/
def updateLast (t : Option τ) (f : FileSection τ → FileSection τ) :
    List (FileSection τ) → List (FileSection τ)
  | [] => []
  | x :: g => if g.any (·.tid = t) ∨ x.tid ≠ t then x :: updateLast t f g else f x :: g

/-- The sections after a call of thread `t`. -/
def recordSection (g : List (FileSection τ)) (t : Option τ) (w : Worker) :
    FileSys → List (FileSection τ)
  | .sys (.lock .file true) =>
    g ++ (w.waitsWith.map fun data => { tid := t, data, part := [], failed := false }).toList
  | .sys (.open false) => updateLast t (fun x => { x with failed := true }) g
  | .sys (.write bs ret) => updateLast t (·.write bs ret) g
  | _ => g

/-- The sections of a run, in the order in which the threads took the mutex. -/
def sectionsOf (tr : List (Label (Option τ) FileSys Env)) : List (FileSection τ) :=
  (timestampServer τ).history recordSection [] (timestampServer.init τ) tr

variable {g before : List (FileSection τ)} {t u : Option τ} {x : FileSection τ} {data part : Bytes}

theorem updateLast_concat {f : FileSection τ → FileSection τ} (hx : x.tid = t) :
    updateLast t f (before ++ [x]) = before ++ [f x] := by
  induction before with
  | nil => simp [updateLast, hx]
  | cons y before ih => simp [updateLast, hx, ih]

theorem recordSection_quiet {w : Worker} {ev : FileSys} (h : ev.quiet = true) :
    recordSection g t w ev = g := by
  unfold recordSection
  split <;> first | rfl | cases h

/-- What a call appends to the file. -/
def FileSys.appends : FileSys → Bytes
  | .sys (.write bs ret) => bs.take ret.toNat
  | _ => []

theorem FileSys.appends_quiet {ev : FileSys} (h : ev.quiet = true) : ev.appends = [] := by
  unfold FileSys.appends
  split
  · cases h
  · rfl

/-- A system call, on the mutexes and on the file. -/
theorem timestampServer_sys {k k' : Locked (Option Bytes) (Option τ)} {ev : Sys} {env : Env}
    (h : (timestampServer τ).service k t (.sys ev) env = some k') :
    ∃ k₁ r, k.mutexCall t ev = some k₁ ∧ fileCall env k.store (k.fPos t) ev = some r ∧
      k' = { k₁ with store := r.1, fPos := Function.update k.fPos t r.2 } := by
  obtain ⟨k₁, hk₁, r, hr, rfl⟩ : ∃ k₁, k.mutexCall t ev = some k₁ ∧
      ∃ r, fileCall env k₁.store (k₁.fPos t) ev = some r ∧
        { k₁ with store := r.1, fPos := Function.update k₁.fPos t r.2 } = k' := by
    simpa only [timestampServer, fileServer, lockedServer, Option.bind_eq_some_iff,
      Option.map_eq_some_iff] using h
  obtain ⟨hstore, hpos, -⟩ := Locked.mutexCall_frame hk₁
  rw [hstore, hpos] at hr
  exact ⟨k₁, r, hk₁, hr, by rw [hpos]⟩

/-- A call's effect on the file and on its mutex. -/
theorem timestampServer_service {k k' : Locked (Option Bytes) (Option τ)} {ev : FileSys} {env : Env}
    (h : (timestampServer τ).service k t ev env = some k') :
    k'.store.getD [] = k.store.getD [] ++ ev.appends ∧
      (ev = .sys (.lock .file true) → k.fileMutex = none ∧ k'.fileMutex = some t) ∧
      (ev = .sys (.unlock .file) → k'.fileMutex = none) ∧
      (ev ≠ .sys (.lock .file true) → ev ≠ .sys (.unlock .file) → k'.fileMutex = k.fileMutex) := by
  cases ev with
  | sys ev =>
    obtain ⟨k₁, r, hk₁, hr, rfl⟩ := timestampServer_sys h
    obtain ⟨-, -, hmutex⟩ := Locked.mutexCall_frame hk₁
    refine ⟨?_, ?_, ?_, fun hl hu => hmutex (fun he => hl (he ▸ rfl)) fun he => hu (he ▸ rfl)⟩
    · cases ev with
      | «open» ok => cases ok <;> cases hr <;> simp [FileSys.appends]
      | write bs ret =>
        obtain ⟨data, hdata, rfl⟩ := Option.map_eq_some_iff.mp hr
        simp [FileSys.appends, hdata]
      | read bs =>
        cases bs with
        | none => cases hr; simp [FileSys.appends]
        | some bs =>
          obtain ⟨data, -, hr⟩ := Option.bind_eq_some_iff.mp hr
          simp only [Option.ite_none_right_eq_some, Option.some.injEq] at hr
          obtain ⟨-, rfl⟩ := hr
          simp [FileSys.appends]
      | ioctl => cases hr
      | _ => cases hr; simp [FileSys.appends]
    · rintro ⟨⟩
      simp only [Locked.mutexCall, Option.ite_none_right_eq_some, Option.some.injEq] at hk₁
      obtain ⟨hfree, rfl⟩ := hk₁
      exact ⟨hfree, rfl⟩
    · rintro ⟨⟩
      cases hk₁
      rfl
  | _ =>
    cases h
    simp [FileSys.appends]

/-- What a step of a thread does, by the stage it is in. -/
theorem Worker.step {w w' : Worker} {ev : FileSys} (h : Worker.lts.next w ev = some w')
    (hlock : w.isClient = false → ev ≠ .sys (.lock .file false)) (hstray : w.stage ≠ .astray)
    (hwritten : ∀ data written, w.stage = .writing data written → written < data.length) :
    Stage.Step w.isClient w.waitsWith w.stage ev w'.stage ∧ w'.isClient = w.isClient := by
  rcases Worker.next_eq_some h with ⟨c, c', ev, rfl, rfl, rfl, hstep⟩ | ⟨pc, pc', rfl, rfl, hstep⟩
  · exact ⟨hstep.stage hstray hwritten, rfl⟩
  · exact ⟨hstep.stage (hlock rfl), rfl⟩

namespace FileSection

/-- No section of the client `t` has failed. -/
def Unfailed (g : List (FileSection τ)) (t : Option τ) : Prop :=
  t ≠ none → ∀ x ∈ g, x.tid = t → x.failed = false

/-- The sections that are over: each wrote its data, or failed; a client has none after a failed
one. -/
structure Recorded (g : List (FileSection τ)) : Prop where
  part : ∀ x ∈ g, x.part <+: x.data
  whole : ∀ x ∈ g, x.failed = false → x.part = x.data
  proper : ∀ x ∈ g, Worker.Proper x.tid.isSome x.data
  last : g.Pairwise fun x y => x.tid = y.tid → x.tid ≠ none → x.failed = false

/-- The file is what the sections wrote. -/
def Written (g : List (FileSection τ)) (k : Locked (Option Bytes) (Option τ)) : Prop :=
  k.store.getD [] = (g.map FileSection.part).flatten

/-- The last section is one of thread `t`, which has written `part` of its data. -/
def Appending (g : List (FileSection τ)) (k : Locked (Option Bytes) (Option τ)) (t : Option τ)
    (data part : Bytes) : Prop :=
  ∃ before, g = before ++ [{ tid := t, data, part, failed := false }] ∧ Recorded before ∧
    Unfailed before t ∧ Worker.Proper t.isSome data ∧ part <+: data ∧ Written g k

/-- A thread in its section. -/
def In (g : List (FileSection τ)) (t : Option τ) (w : Worker)
    (k : Locked (Option Bytes) (Option τ)) : Prop :=
  w.isClient = t.isSome ∧
    match w.stage with
    | .opening data => Appending g k t data []
    | .writing data written => written < data.length ∧ Appending g k t data (data.take written)
    | .done last => Recorded g ∧ Written g k ∧ (last = false → Unfailed g t)
    | _ => False

/-- A thread outside of it. -/
def Out (g : List (FileSection τ)) (t : Option τ) (w : Worker) : Prop :=
  w.isClient = t.isSome ∧ (∀ data, w.waitsWith = some data → Worker.Proper t.isSome data) ∧
    ∃ ended, w.stage = .outside ended ∧ (ended = false → Unfailed g t)

variable {k k' : Locked (Option Bytes) (Option τ)} {w w' : Worker} {ev : FileSys} {env : Env}

omit [DecidableEq τ] in
theorem unfailed_timer (h : t.isSome = false) : Unfailed g t := by
  rw [Option.isSome_eq_false_iff, Option.isNone_iff_eq_none] at h
  exact fun hne => absurd h hne

omit [DecidableEq τ] in
theorem Unfailed.concat (h : Unfailed before t) (hx : x.tid = t → x.failed = false) :
    Unfailed (before ++ [x]) t := by
  intro ht y hy hyt
  rcases List.mem_append.mp hy with hy | hy
  · exact h ht y hy hyt
  · rw [List.mem_singleton.mp hy] at hyt ⊢
    exact hx hyt

omit [DecidableEq τ] in
theorem pairwise_concat
    (h : before.Pairwise fun x y => x.tid = y.tid → x.tid ≠ none → x.failed = false)
    (hun : Unfailed before x.tid) :
    (before ++ [x]).Pairwise fun x y => x.tid = y.tid → x.tid ≠ none → x.failed = false := by
  rw [List.pairwise_append]
  refine ⟨h, List.pairwise_singleton _ _, fun y hy z hz heq hne => ?_⟩
  rw [List.mem_singleton.mp hz] at heq
  exact hun (heq ▸ hne) y hy heq

omit [DecidableEq τ] in
/-- A section comes to its end. -/
theorem Recorded.concat (h : Recorded before) (hpart : x.part <+: x.data)
    (hwhole : x.failed = false → x.part = x.data) (hproper : Worker.Proper x.tid.isSome x.data)
    (hun : Unfailed before x.tid) : Recorded (before ++ [x]) where
  part := List.forall_mem_append.mpr ⟨h.part, by simpa using hpart⟩
  whole := List.forall_mem_append.mpr ⟨h.whole, by simpa using hwhole⟩
  proper := List.forall_mem_append.mpr ⟨h.proper, by simpa using hproper⟩
  last := pairwise_concat h.last hun

omit [DecidableEq τ] in
/-- Only the file matters of what the threads share. -/
theorem In.congr (h : In g u w k) (hk : k'.store.getD [] = k.store.getD []) : In g u w k' := by
  unfold In Appending Written at *
  rwa [hk]

theorem mem_of_mem_updateLast {f : FileSection τ → FileSection τ} (hx : x ∈ updateLast t f g)
    (ht : x.tid ≠ t) (hf : ∀ y, (f y).tid = y.tid) : x ∈ g := by
  induction g with
  | nil => exact hx
  | cons y g ih =>
    unfold updateLast at hx
    split at hx
    · rcases List.mem_cons.mp hx with rfl | hx
      · exact List.mem_cons_self
      · exact List.mem_cons_of_mem _ (ih hx)
    · rename_i hy
      rcases List.mem_cons.mp hx with rfl | hx
      · rw [hf] at ht
        simp [ht] at hy
      · exact List.mem_cons_of_mem _ hx

/-- Another thread does not change the sections of a thread. -/
theorem mem_of_mem_recordSection (hx : x ∈ recordSection g t w ev) (ht : x.tid ≠ t) : x ∈ g := by
  unfold recordSection at hx
  split at hx
  · rcases List.mem_append.mp hx with hx | hx
    · exact hx
    · cases hw : w.waitsWith with
      | none => simp [hw] at hx
      | some data =>
        simp only [hw, Option.map_some, Option.toList_some, List.mem_singleton] at hx
        rw [hx] at ht
        exact absurd rfl ht
  · exact mem_of_mem_updateLast hx ht fun _ => rfl
  · exact mem_of_mem_updateLast hx ht fun _ => rfl
  · exact hx

theorem Out.others (h : Out g u w') (hu : u ≠ t) : Out (recordSection g t w ev) u w' := by
  obtain ⟨hkind, hproper, ended, hstage, hun⟩ := h
  exact ⟨hkind, hproper, ended, hstage, fun he hne x hx hxu =>
    hun he hne x (mem_of_mem_recordSection hx (hxu ▸ hu)) hxu⟩

/-- A call of a thread that makes it: its stage, and the file. -/
theorem makes (h : (timestampServer τ).Makes t w k ev env w' k')
    (hallowed : t = none → ev ≠ .sys (.lock .file false)) (hkind : w.isClient = t.isSome)
    (hstray : w.stage ≠ .astray)
    (hwritten : ∀ data written, w.stage = .writing data written → written < data.length) :
    Stage.Step t.isSome w.waitsWith w.stage ev w'.stage ∧ w'.isClient = t.isSome ∧
      ∀ data, w'.waitsWith = some data → Worker.Proper t.isSome data := by
  have hlock : w.isClient = false → ev ≠ .sys (.lock .file false) := by
    intro hw
    rw [hkind, Option.isSome_eq_false_iff, Option.isNone_iff_eq_none] at hw
    exact hallowed hw
  obtain ⟨hstage, hkind'⟩ := Worker.step h.thread hlock hstray hwritten
  rw [hkind] at hstage hkind'
  exact ⟨hstage, hkind', fun data hdata => hkind' ▸ Worker.waits_proper h.thread hdata⟩

theorem enters (h : (timestampServer τ).Makes t w k ev env w' k')
    (hallowed : t = none → ev ≠ .sys (.lock .file false)) (hin' : w'.stage.inside = true)
    (hOut : Out g t w) :
    k.fileMutex = none ∧ k'.fileMutex = some t ∧
      (Recorded g ∧ Written g k → In (recordSection g t w ev) t w' k') := by
  obtain ⟨hkind, hproper, ended, hstage, hun⟩ := hOut
  obtain ⟨hstep, hkind', -⟩ := makes h hallowed hkind (by simp [hstage]) (by simp [hstage])
  obtain ⟨hstore, hlock, -, -⟩ := timestampServer_service h.service
  rw [hstage] at hstep
  generalize hs' : w'.stage = stage' at hstep hin'
  cases hstep with
  | apart hev hended => cases hin'
  | @enters data hw =>
    obtain ⟨hnone, hsome⟩ := hlock rfl
    refine ⟨hnone, hsome, fun ⟨hrec, hwritten⟩ => ⟨hkind', ?_⟩⟩
    rw [hs']
    refine ⟨g, by simp [recordSection, hw], hrec, hun rfl, hproper data hw, List.nil_prefix, ?_⟩
    rw [Written, hstore, hwritten]
    simp [recordSection, hw, FileSys.appends]
  | skips hw =>
    obtain ⟨hnone, hsome⟩ := hlock rfl
    refine ⟨hnone, hsome, fun ⟨hrec, hwritten⟩ => ⟨hkind', ?_⟩⟩
    rw [hs']
    have hg : recordSection g t w (.sys (.lock .file true)) = g := by simp [recordSection, hw]
    rw [hg]
    refine ⟨hrec, ?_, fun _ => hun rfl⟩
    rw [Written, hstore, hwritten]
    simp [FileSys.appends]

omit [DecidableEq τ] in
theorem In.reached (h : In g t w k) : w.stage ≠ .astray ∧
    ∀ data written, w.stage = .writing data written → written < data.length := by
  obtain ⟨-, h⟩ := h
  constructor
  · intro hs
    rw [hs] at h
    exact h
  · intro data written hs
    rw [hs] at h
    exact h.1

theorem leaves (h : (timestampServer τ).Makes t w k ev env w' k')
    (hallowed : t = none → ev ≠ .sys (.lock .file false)) (hin : w.stage.inside = true)
    (hin' : w'.stage.inside = false) (hIn : In g t w k) :
    k'.fileMutex = none ∧ Out (recordSection g t w ev) t w' ∧
      Recorded (recordSection g t w ev) ∧ Written (recordSection g t w ev) k' := by
  obtain ⟨hstep, hkind', hproper⟩ := makes h hallowed hIn.1 hIn.reached.1 hIn.reached.2
  obtain ⟨hstore, -, hunlock, -⟩ := timestampServer_service h.service
  obtain ⟨-, hIn⟩ := hIn
  generalize hs : w.stage = stage at hstep hin hIn
  generalize hs' : w'.stage = stage' at hstep hin'
  cases hstep with
  | @leaves last =>
    obtain ⟨hrec, hwritten, hun⟩ := hIn
    refine ⟨hunlock rfl, ⟨hkind', hproper, last, hs', hun⟩, hrec, ?_⟩
    rw [Written, hstore, hwritten]
    simp [recordSection, FileSys.appends]
  | apart => cases hin
  | _ => cases hin'

/-- A write to the file in the section. -/
theorem Appending.write {written : Nat} {ret : Int}
    (h : Appending g k t data (data.take written))
    (hk : k'.store.getD [] = k.store.getD [] ++ (data.drop written).take ret.toNat) :
    ∃ before, updateLast t (·.write (data.drop written) ret) g =
        before ++ [{ tid := t, data, part := data.take (written + ret.toNat)
                     failed := decide (ret ≤ 0) && ret != -eintr }] ∧
      Recorded before ∧ Unfailed before t ∧ Worker.Proper t.isSome data ∧
      Written (updateLast t (·.write (data.drop written) ret) g) k' := by
  obtain ⟨before, rfl, hrec, hun, hproper, -, hwritten⟩ := h
  have hg : updateLast t (·.write (data.drop written) ret)
      (before ++ [{ tid := t, data, part := data.take written, failed := false }]) =
        before ++ [{ tid := t, data, part := data.take (written + ret.toNat)
                     failed := decide (ret ≤ 0) && ret != -eintr }] := by
    refine (updateLast_concat (t := t) rfl).trans ?_
    simp [FileSection.write, List.take_add]
  refine ⟨before, hg, hrec, hun, hproper, ?_⟩
  rw [hg, Written, hk, hwritten]
  simp [List.take_add]

theorem works (h : (timestampServer τ).Makes t w k ev env w' k')
    (hallowed : t = none → ev ≠ .sys (.lock .file false)) (hin : w.stage.inside = true)
    (hin' : w'.stage.inside = true) (hIn : In g t w k) :
    k'.fileMutex = k.fileMutex ∧ In (recordSection g t w ev) t w' k' := by
  obtain ⟨hstep, hkind', -⟩ := makes h hallowed hIn.1 hIn.reached.1 hIn.reached.2
  obtain ⟨hstore, -, -, hframe⟩ := timestampServer_service h.service
  obtain ⟨-, hIn⟩ := hIn
  unfold In
  generalize w.stage = stage at hstep hin hIn
  generalize w'.stage = stage' at hstep hin'
  cases hstep with
  | enters | skips | apart => cases hin
  | leaves => cases hin'
  | opens =>
    obtain ⟨before, rfl, hrec, hun, hproper, -, hwritten⟩ := hIn
    refine ⟨hframe (by simp) (by simp), hkind', List.length_pos_iff.mpr hproper.1, before, rfl, hrec,
      hun, hproper, List.nil_prefix, ?_⟩
    rw [Written, hstore, hwritten]
    simp [FileSys.appends, recordSection]
  | @openFails data =>
    obtain ⟨before, rfl, hrec, hun, hproper, -, hwritten⟩ := hIn
    have hg : recordSection (before ++ [{ tid := t, data, part := [], failed := false }]) t w
        (.sys (.open false)) = before ++ [{ tid := t, data, part := [], failed := true }] :=
      updateLast_concat rfl
    rw [hg]
    refine ⟨hframe (by simp) (by simp), hkind', hrec.concat List.nil_prefix (by simp) hproper hun, ?_,
      unfailed_timer⟩
    rw [Written, hstore, hwritten]
    simp [FileSys.appends]
  | @more data written ret hret =>
    obtain ⟨before, hg, hrec, hun, hproper, hwritten⟩ := hIn.2.write hstore
    have hfailed : (decide (ret ≤ 0) && ret != -eintr) = false := by
      rcases hret with ⟨hpos, -⟩ | rfl
      · simp; omega
      · simp
    rw [hfailed] at hg
    refine ⟨hframe (by simp) (by simp), hkind', ?_, before, hg, hrec, hun, hproper,
      List.take_prefix _ _, hwritten⟩
    rcases hret with ⟨-, hlt⟩ | rfl
    · exact hlt
    · exact hIn.1
  | @whole data written ret last hret hdone =>
    obtain ⟨before, hg, hrec, hun, hproper, hwritten⟩ := hIn.2.write hstore
    have hfailed : (decide (ret ≤ 0) && ret != -eintr) = false := by simp; omega
    rw [hfailed, List.take_of_length_le hdone] at hg
    simp only [recordSection]
    rw [hg] at hwritten ⊢
    exact ⟨hframe (by simp) (by simp), hkind', hrec.concat List.prefix_rfl (fun _ => rfl) hproper hun,
      hwritten, fun _ => hun.concat fun _ => rfl⟩
  | @fails data written ret hret =>
    obtain ⟨before, hg, hrec, hun, hproper, hwritten⟩ := hIn.2.write hstore
    have hfailed : (decide (ret ≤ 0) && ret != -eintr) = true := by simp [hret.1, hret.2]
    rw [hfailed] at hg
    simp only [recordSection]
    rw [hg] at hwritten ⊢
    exact ⟨hframe (by simp) (by simp), hkind',
      hrec.concat (List.take_prefix _ _) (by simp) hproper hun, hwritten,
      unfailed_timer⟩
  | @rests last last' ev hev hlast =>
    rw [recordSection_quiet hev]
    obtain ⟨hrec, hwritten, hun⟩ := hIn
    refine ⟨hframe (by rintro rfl; cases hev) (by rintro rfl; cases hev), hkind', hrec, ?_, ?_⟩
    · rw [Written, hstore, hwritten, FileSys.appends_quiet hev, List.append_nil]
    · rintro rfl
      exact hun (Bool.eq_false_iff.mpr fun h => by cases hlast h)

theorem apart (h : (timestampServer τ).Makes t w k ev env w' k')
    (hallowed : t = none → ev ≠ .sys (.lock .file false)) (hin' : w'.stage.inside = false)
    (hOut : Out g t w) :
    k'.fileMutex = k.fileMutex ∧ k'.store.getD [] = k.store.getD [] ∧ recordSection g t w ev = g ∧
      Out g t w' := by
  obtain ⟨hkind, hproper, ended, hstage, hun⟩ := hOut
  obtain ⟨hstep, hkind', hproper'⟩ := makes h hallowed hkind (by simp [hstage]) (by simp [hstage])
  obtain ⟨hstore, -, -, hframe⟩ := timestampServer_service h.service
  rw [hstage] at hstep
  generalize hs' : w'.stage = stage' at hstep hin'
  cases hstep with
  | @apart ended ended' ev hev hended =>
    rw [FileSys.appends_quiet hev, List.append_nil] at hstore
    refine ⟨hframe (by rintro rfl; cases hev) (by rintro rfl; cases hev), hstore,
      recordSection_quiet hev, hkind', hproper', ended', hs', ?_⟩
    rintro rfl
    exact hun (Bool.eq_false_iff.mpr fun he => by cases hended he)
  | _ => cases hin'

/-- `file_mutex` and the file behind it. -/
def guard (τ : Type*) [DecidableEq τ] : (timestampServer τ).Guarded (List (FileSection τ)) where
  holder := Locked.fileMutex
  inside w := w.stage.inside
  record := recordSection
  Allowed t ev := t = none → ev ≠ .sys (.lock .file false)
  Free g k := Recorded g ∧ Written g k
  In := In
  Out := Out
  enters h hallowed _ hin' hOut := enters h hallowed hin' hOut
  leaves := leaves
  works := works
  apart h hallowed _ hin' hOut := by
    obtain ⟨hholder, hstore, hrecord, hOut'⟩ := apart h hallowed hin' hOut
    rw [hrecord]
    refine ⟨hholder, hOut', fun ⟨hrec, hwritten⟩ => ⟨hrec, hstore.trans hwritten⟩,
      fun u d _ hIn => hIn.congr hstore⟩
  others _ _ hu hOut := hOut.others hu

/-- Before the first call. -/
theorem guard_init : (guard τ).Ok [] (timestampServer.init τ) where
  mutex t := by cases t <;> exact ⟨nofun, nofun⟩
  free _ := ⟨⟨nofun, nofun, nofun, .nil⟩, rfl⟩
  held t ht := by cases t <;> cases ht
  outside t _ := by
    cases t with
    | none => exact ⟨rfl, nofun, false, rfl, fun _ => unfailed_timer rfl⟩
    | some u => exact ⟨rfl, nofun, false, rfl, fun _ _ => nofun⟩

/-- The file and the sections of a run. -/
structure Accounts (g : List (FileSection τ)) (k : Locked (Option Bytes) (Option τ)) : Prop where
  /-- The file is the concatenation of what they wrote. -/
  file : k.store.getD [] = (g.map FileSection.part).flatten
  /-- Each wrote its data from the start. -/
  part : ∀ x ∈ g, x.part <+: x.data
  /-- The timer thread has nothing to write but timestamps. -/
  timer : ∀ x ∈ g, x.tid = none → ∃ timeinfo, x.data = timestamp timeinfo
  /-- It wrote all of its data, unless a call failed or the thread is still at it. -/
  whole : ∀ before x after, g = before ++ x :: after → x.failed = false →
    x.part = x.data ∨ after = [] ∧ k.fileMutex = some x.tid
  /-- A client has no section after one that failed. -/
  last : g.Pairwise fun x y => x.tid = y.tid → x.tid ≠ none → x.failed = false

omit [DecidableEq τ] in
/-- Between the sections, and at the end of one. -/
theorem Recorded.accounts (h : Recorded g) (hwritten : Written g k) : Accounts g k where
  file := hwritten
  part := h.part
  timer x hx ht := (h.proper x hx).2 (by simp [ht])
  whole before x after heq hx := .inl (h.whole x (by simp [heq]) hx)
  last := h.last

omit [DecidableEq τ] in
/-- In a section, before the end of its `write_all`. -/
theorem Appending.accounts (h : Appending g k t data part) (hmutex : k.fileMutex = some t) :
    Accounts g k := by
  obtain ⟨before, rfl, hrec, hun, hproper, hpart, hwritten⟩ := h
  refine ⟨hwritten, ?_, ?_, fun before' x after heq hx => ?_, pairwise_concat hrec.last hun⟩
  · exact List.forall_mem_append.mpr ⟨hrec.part, by simpa using hpart⟩
  · refine List.forall_mem_append.mpr ⟨fun x hx ht => (hrec.proper x hx).2 (by simp [ht]), ?_⟩
    rw [List.forall_mem_singleton]
    exact fun ht => hproper.2 (by simp [show t = none from ht])
  · rcases List.eq_nil_or_concat after with rfl | ⟨after, y, rfl⟩
    · obtain ⟨-, heq⟩ := List.append_inj' heq rfl
      cases heq
      exact .inr ⟨rfl, hmutex⟩
    · rw [List.concat_eq_append, ← List.cons_append, ← List.append_assoc] at heq
      obtain ⟨rfl, -⟩ := List.append_inj' heq rfl
      exact .inl (hrec.whole x (by simp) hx)

/-- Whoever holds the mutex. -/
theorem accounts_of_ok {s : State (Option τ) Worker (Locked (Option Bytes) (Option τ))}
    (h : (guard τ).Ok g s) : Accounts g s.shared := by
  cases hmutex : s.shared.fileMutex with
  | none =>
    obtain ⟨hrec, hwritten⟩ := h.free hmutex
    exact hrec.accounts hwritten
  | some t =>
    obtain ⟨-, hIn⟩ := h.held t ((h.mutex t).mpr hmutex)
    split at hIn
    · exact hIn.accounts hmutex
    · exact hIn.2.accounts hmutex
    · exact hIn.1.accounts hIn.2.1
    · exact hIn.elim

end FileSection

/-- In the file build, whatever fails, the file is the concatenation of what the critical sections of
the clients and of the timer thread wrote, in the order in which they took the mutex: each wrote its
chunk or timestamp from the start, and all of it unless its `open` or `write` failed or its thread is
still at it. -/
theorem file_sections (tr : List (Label (Option τ) FileSys Env))
    (s : State (Option τ) Worker (Locked (Option Bytes) (Option τ)))
    (h : (timestampServer τ).lts.run (timestampServer.init τ) tr = some s)
    (hlock : ∀ l ∈ tr, l.tid = none → l.ev ≠ .sys (.lock .file false)) :
    FileSection.Accounts (sectionsOf tr) s.shared :=
  FileSection.accounts_of_ok (Threads.Guarded.run_recorded FileSection.guard_init h hlock)

/-- Thread `t` makes the calls, one after the other. -/
def fileCalls (t : Option Nat) (evs : List FileSys) : List (Label (Option Nat) FileSys Env) :=
  evs.map fun ev => { tid := t, ev := ev, env := .succeeds }

/-- A summer day in Central Europe. -/
def someTm : Tm where
  sec := 5
  min := 30
  hour := 14
  mday := 7
  mon := 5
  year := 2025
  wday := 6
  west := false
  offset := 120
  year_pos := by decide
  year_lt := by decide

/-- The timer thread writes its timestamp in two pieces, while a client waits with `"ab"`; then the
client's second `write` fails. -/
def tornChunk : List (Label (Option Nat) FileSys Env) :=
  fileCalls (some 0) (toFirstRecv.map .sys ++ [.sys (.recv (some [97, 98]))]) ++
    fileCalls none [.keepRunning true, .strftime someTm, .sys (.lock .file true), .sys (.open true),
      .sys (.write (timestamp someTm) 10), .sys (.write ((timestamp someTm).drop 10) 33),
      .sys .close, .sys (.unlock .file)] ++
    fileCalls (some 0) [.sys (.lock .file true), .sys (.open true), .sys (.write [97, 98] 1),
      .sys (.write [98] (-5))]

theorem file_sections_torn :
    ∃ s : State (Option Nat) Worker (Locked (Option Bytes) (Option Nat)),
      (timestampServer Nat).lts.run (timestampServer.init Nat) tornChunk = some s ∧
      s.shared.store.getD [] = timestamp someTm ++ [97] := by
  have hrun : (((timestampServer Nat).lts.run (timestampServer.init Nat) tornChunk).map fun s =>
      s.shared.fileMutex) = some (some (some 0)) := by decide
  obtain ⟨s, hs, -⟩ := Option.map_eq_some_iff.mp hrun
  refine ⟨s, hs, (file_sections tornChunk s hs (by decide)).file.trans ?_⟩
  decide

end Aesd
