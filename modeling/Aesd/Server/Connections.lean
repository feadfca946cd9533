import Aesd.Lib.Progress
import Aesd.Server.ThreadData

/-!
# Who holds which descriptor

A number is free again as soon as it is closed, and the kernel may return it at once, to a thread or
to the C library. But `server_socket` keeps its number: `cleanup_on_signal` closes it every time it
runs, and after a failed setup once more than `setup_server_socket`.

* `Proper`: the descriptors in use are those that somebody has at the place where he is, each of its
  own, and refer to what they were opened as.
* `Stray`: `server_socket` is closed again while its number is in use.
* `proper_iff`: a run is proper throughout iff no close in it is stray.
* `own_connection`: without one a thread has its own connection, from its start to its `close`.
-/

namespace Aesd

namespace Descriptors

variable {τ γ : Type*} [DecidableEq τ] {b : Build} {daemonMode : Bool} {st st' st₁ : Descriptors τ γ}
  {fresh : Nat} {addr : γ} {s' : Process τ}

/-- The descriptors in hand, with what they were opened as. -/
def held (st : Descriptors τ γ) : Holder τ → Option (Nat × Object γ)
  | .server => if st.process.closes = 0 then st.serverSocket.map (·, .socket) else none
  | .accept =>
    if st.process.stack.any hasConnection then
      st.clientSocket.map (·, .connection st.clientAddr)
    else none
  | .client t =>
    if threadAt hasSocket st.process t then
      (st.thread t).bind fun d => d.clientSocket.map (·, .connection d.clientIp)
    else none
  | .file t => if threadAt hasFile st.process t then (st.fileDesc t).map (·, .file) else none
  | .timer =>
    match st.timerFile with
    | .writing n => some (n, .file)
    | _ => none
  | .library i => (st.library i).map (·, .library)

/-- Who has a descriptor at the place where he is. -/
def holds (st : Descriptors τ γ) : Holder τ → Bool
  | .accept => st.process.stack.any hasConnection
  | .client t => threadAt hasSocket st.process t
  | .file t => threadAt hasFile st.process t
  | _ => false

/-- Everybody has the descriptors of the place where he is, each of its own, they refer to what they
were opened as, and nothing else is open. -/
structure Proper (base : Nat → Option (Object γ)) (st : Descriptors τ γ) : Prop where
  owned : Table.Owned base st.held st.table
  present : ∀ i, st.holds i = true → (st.held i).isSome = true

/-- The main thread closes `server_socket`. -/
def closesServer : Place τ → Bool
  | .setupClose | .closeServer => true
  | _ => false

/-- `server_socket` is closed again, and its number is in use. -/
def Stray (st : Descriptors τ γ) (e : DescriptorEvent τ γ) : Prop :=
  e.ofMain = true ∧ (st.process.stack.head?.any closesServer) = true ∧ 0 < st.process.closes ∧
    (st.serverSocket.bind st.table).isSome = true

/-! ## What the calls do to them -/

/-- The holder has the same in hand in both states. -/
structure Keeps (st st' : Descriptors τ γ) (j : Holder τ) : Prop where
  held : st'.held j = st.held j
  holds : st'.holds j = st.holds j

namespace Proper

variable {base : Nat → Option (Object γ)} {i j : Holder τ} {n : Nat} {o : Object γ} {t : τ}
  {pc pc' : Pc}

omit [DecidableEq τ] in
/-- Nobody takes or gives a descriptor. -/
theorem same (h : Proper base st) (hall : ∀ j, Keeps st st' j) (htable : st'.table = st.table) :
    Proper base st' where
  owned := by
    have hheld : st'.held = st.held := funext fun j => (hall j).held
    rw [hheld, htable]
    exact h.owned
  present j hj := by
    rw [(hall j).holds] at hj
    rw [(hall j).held]
    exact h.present j hj

theorem held_update {x : Option (Nat × Object γ)} (hi : st'.held i = x)
    (hothers : ∀ j, j ≠ i → Keeps st st' j) : st'.held = Function.update st.held i x := by
  funext j
  by_cases hji : j = i
  · rw [hji, hi, Function.update_self]
  · rw [(hothers j hji).held, Function.update_of_ne hji]

/-- The holder `i` takes a free number. -/
theorem acquire (h : Proper base st) (hi : st.held i = none) (hn : st.table n = none)
    (hi' : st'.held i = some (n, o)) (hothers : ∀ j, j ≠ i → Keeps st st' j)
    (htable : st'.table = Function.update st.table n (some o)) : Proper base st' where
  owned := by
    rw [held_update hi' hothers, htable]
    exact h.owned.acquire hi hn
  present j hj := by
    by_cases hji : j = i
    · rw [hji, hi']
      rfl
    · rw [(hothers j hji).holds] at hj
      rw [(hothers j hji).held]
      exact h.present j hj

/-- The holder `i` closes its number. -/
theorem release (h : Proper base st) (hi : st.held i = some (n, o)) (hi' : st'.held i = none)
    (hno : st'.holds i = false) (hothers : ∀ j, j ≠ i → Keeps st st' j)
    (htable : st'.table = Function.update st.table n none) : Proper base st' where
  owned := by
    rw [held_update hi' hothers, htable]
    exact h.owned.release hi
  present j hj := by
    have hji : j ≠ i := fun hji => by
      rw [hji, hno] at hj
      cases hj
    rw [(hothers j hji).holds] at hj
    rw [(hothers j hji).held]
    exact h.present j hj

/-- The holder `i` hands its number on to `j`. -/
theorem transfer (h : Proper base st) (hi : st.held i = some (n, o)) (hj : st.held j = none)
    (hi' : st'.held i = none) (hno : st'.holds i = false) (hj' : st'.held j = some (n, o))
    (hothers : ∀ k, k ≠ i → k ≠ j → Keeps st st' k) (htable : st'.table = st.table) :
    Proper base st' where
  owned := by
    have hheld : st'.held = Function.update (Function.update st.held i none) j (some (n, o)) := by
      funext k
      by_cases hkj : k = j
      · rw [hkj, hj', Function.update_self]
      · by_cases hki : k = i
        · rw [Function.update_of_ne hkj, hki, hi', Function.update_self]
        · rw [Function.update_of_ne hkj, Function.update_of_ne hki, (hothers k hki hkj).held]
    rw [hheld, htable]
    exact h.owned.transfer hi hj
  present k hk := by
    have hki : k ≠ i := fun hki => by
      rw [hki, hno] at hk
      cases hk
    by_cases hkj : k = j
    · rw [hkj, hj']
      rfl
    · rw [(hothers k hki hkj).holds] at hk
      rw [(hothers k hki hkj).held]
      exact h.present k hk

omit [DecidableEq τ] in
/-- The connection of `main`. -/
theorem held_accept (h : Proper base st) (hc : st.process.stack.any hasConnection = true) :
    ∃ n, st.clientSocket = some n ∧ st.held .accept = some (n, .connection st.clientAddr) := by
  obtain ⟨x, hx⟩ := Option.isSome_iff_exists.mp (h.present .accept hc)
  rw [held, if_pos hc] at hx
  obtain ⟨n, hn, rfl⟩ := Option.map_eq_some_iff.mp hx
  exact ⟨n, hn, by rw [held, if_pos hc, hn]; rfl⟩

omit [DecidableEq τ] in
/-- The connection of a thread. -/
theorem held_client (h : Proper base st) (ht : threadAt hasSocket st.process t = true) :
    ∃ n d, st.thread t = some d ∧ st.socketOf t = some n ∧
      st.held (.client t) = some (n, .connection d.clientIp) := by
  obtain ⟨x, hx⟩ := Option.isSome_iff_exists.mp (h.present (.client t) ht)
  rw [held, if_pos ht] at hx
  obtain ⟨d, hd, hx⟩ := Option.bind_eq_some_iff.mp hx
  obtain ⟨n, hn, rfl⟩ := Option.map_eq_some_iff.mp hx
  refine ⟨n, d, hd, ?_, ?_⟩
  · rw [socketOf, hd, Option.bind_some, hn]
  · rw [held, if_pos ht, hd, Option.bind_some, hn]
    rfl

omit [DecidableEq τ] in
/-- The file of a thread. -/
theorem held_file (h : Proper base st) (ht : threadAt hasFile st.process t = true) :
    ∃ n, st.fileDesc t = some n ∧ st.held (.file t) = some (n, .file) := by
  obtain ⟨x, hx⟩ := Option.isSome_iff_exists.mp (h.present (.file t) ht)
  rw [held, if_pos ht] at hx
  obtain ⟨n, hn, rfl⟩ := Option.map_eq_some_iff.mp hx
  exact ⟨n, hn, by rw [held, if_pos ht, hn]; rfl⟩

/-- A call of the thread `t` leaves what the others have in hand. -/
structure Local (st st₁ : Descriptors τ γ) (t : τ) : Prop where
  serverSocket : st₁.serverSocket = st.serverSocket
  clientSocket : st₁.clientSocket = st.clientSocket
  clientAddr : st₁.clientAddr = st.clientAddr
  timerFile : st₁.timerFile = st.timerFile
  library : st₁.library = st.library
  fileDesc : ∀ u, u ≠ t → st₁.fileDesc u = st.fileDesc u
  thread : ∀ u, u ≠ t → threadAt hasSocket st.process u = true → st₁.thread u = st.thread u

omit [DecidableEq τ] in
theorem held_others (hm : Moves st.process s' t pc pc') (hl : Local st st₁ t)
    (hclient : j ≠ .client t) (hfile : j ≠ .file t) :
    Keeps st { st₁ with process := s' } j := by
  cases j with
  | server => exact ⟨by simp [held, hm.closes, hl.serverSocket], rfl⟩
  | accept =>
    exact ⟨by simp [held, hm.stack, hl.clientSocket, hl.clientAddr], by simp [holds, hm.stack]⟩
  | client u =>
    have hut : u ≠ t := fun hut => hclient (by rw [hut])
    have hthread := hl.thread u hut
    rw [Descriptors.thread] at hthread
    refine ⟨?_, hm.others hasSocket u hut⟩
    by_cases hu : threadAt hasSocket st.process u = true
    · simp [held, hm.others _ u hut, hu, Descriptors.thread, hthread hu]
    · simp [held, hm.others _ u hut, hu]
  | file u =>
    have hut : u ≠ t := fun hut => hfile (by rw [hut])
    exact ⟨by simp [held, hm.others _ u hut, hl.fileDesc u hut], hm.others hasFile u hut⟩
  | timer => exact ⟨by simp [held, hl.timerFile], rfl⟩
  | library => exact ⟨by simp [held, hl.library], rfl⟩

omit [DecidableEq τ] in
/-- A call on the file. -/
theorem held_but_file (hm : Moves st.process s' t pc pc') (hl : Local st st₁ t)
    (hsocket : hasSocket pc' = hasSocket pc) (hthread : st₁.thread t = st.thread t)
    (hj : j ≠ .file t) :
    Keeps st { st₁ with process := s' } j := by
  by_cases hclient : j = .client t
  · subst hclient
    rw [Descriptors.thread] at hthread
    exact ⟨by simp [held, hm.here, hm.there, hsocket, Descriptors.thread, hthread],
      by simp [holds, hm.here, hm.there, hsocket]⟩
  · exact held_others hm hl hclient hj

omit [DecidableEq τ] in
/-- A call on the connection. -/
theorem held_but_client (hm : Moves st.process s' t pc pc') (hl : Local st st₁ t)
    (hfile : hasFile pc' = hasFile pc) (hfd : hasFile pc = true → st₁.fileDesc t = st.fileDesc t)
    (hj : j ≠ .client t) :
    Keeps st { st₁ with process := s' } j := by
  by_cases hf : j = .file t
  · subst hf
    refine ⟨?_, by simp [holds, hm.here, hm.there, hfile]⟩
    simp only [held, hm.here, hm.there, hfile]
    split
    · rename_i hin
      rw [hfd hin]
    · rfl
  · exact held_others hm hl hj hf

omit [DecidableEq τ] in
/-- A call that leaves the thread what it has. -/
theorem idle (h : Proper base st) (hm : Moves st.process s' t pc pc') (hl : Local st st₁ t)
    (hs : Same pc pc') (htable : st₁.table = st.table) (hthread : st₁.thread t = st.thread t)
    (hfd : hasFile pc = true → st₁.fileDesc t = st.fileDesc t) :
    Proper base { st₁ with process := s' } := by
  refine h.same (fun j => ?_) htable
  by_cases hj : j = .client t
  · exact held_but_file hm hl hs.socket hthread (by simp [hj])
  · exact held_but_client hm hl hs.file hfd hj

/-- Every call of a thread keeps it. -/
theorem client (h : Proper base st) (hb : Blocks st) {fresh : Nat}
    (hm : Moves st.process s' t pc pc') (hu : Use st t fresh pc pc' st₁) :
    Proper base { st₁ with process := s' } := by
  cases hu with
  | idle hs | data hs =>
    exact h.idle hm ⟨rfl, rfl, rfl, rfl, rfl, fun _ _ => rfl, fun _ _ _ => rfl⟩ hs rfl rfl fun _ => rfl
  | openFails hs hfile =>
    refine h.idle hm ⟨rfl, rfl, rfl, rfl, rfl, fun u hu => ?_, fun _ _ _ => rfl⟩ hs rfl rfl fun hf => ?_
    · exact Function.update_of_ne hu ..
    · rw [hfile] at hf
      cases hf
  | opens hsocket _ hfile hfile' hn =>
    have hl : Local st { st with
        table := Function.update st.table fresh (some .file)
        fileDesc := Function.update st.fileDesc t (some fresh) } t :=
      ⟨rfl, rfl, rfl, rfl, rfl, fun u hu => Function.update_of_ne hu .., fun _ _ _ => rfl⟩
    exact h.acquire (i := .file t) (by simp [held, hm.here, hfile]) hn
      (by simp [held, hm.there, hfile']) (fun j hj => held_but_file hm hl hsocket rfl hj) rfl
  | closes hsocket _ hfile hfile' =>
    obtain ⟨n, hn, hheld⟩ := h.held_file ((hm.here hasFile).trans hfile)
    rw [hn]
    have hl : Local st (st.close (some n)) t :=
      ⟨rfl, rfl, rfl, rfl, rfl, fun _ _ => rfl, fun _ _ _ => rfl⟩
    exact h.release hheld (by simp [held, hm.there, hfile']) (by simp [holds, hm.there, hfile'])
      (fun j hj => held_but_file hm hl hsocket rfl hj) rfl
  | closesSocket hfile _ hin hsocket hsocket' =>
    obtain ⟨n, d, -, hn, hheld⟩ := h.held_client ((hm.here hasSocket).trans hsocket)
    rw [hn]
    have hl : Local st ((st.useData t).close (some n)) t :=
      ⟨rfl, rfl, rfl, rfl, rfl, fun _ _ => rfl, fun _ _ _ => rfl⟩
    exact h.release hheld (by simp [held, hm.there, hsocket']) (by simp [holds, hm.there, hsocket'])
      (fun j hj => held_but_client hm hl hfile (fun _ => rfl) hj) rfl
  | frees hfile hsocket hsocket' hdata =>
    obtain ⟨p, d, hp, hd, hheld⟩ := hb.thread ((hm.here hasData).trans hdata)
    rw [hp, free_some hd]
    have hl : Local st { st with data := Function.update st.data p none } t := by
      refine ⟨rfl, rfl, rfl, rfl, rfl, fun _ _ => rfl, fun u hut hu => ?_⟩
      -- the other thread has another block
      obtain ⟨q, -, hq, -, hqheld⟩ := hb.thread (threadAt_hasData hu)
      have hqp : q ≠ p := fun hqp => by
        subst hqp
        cases hb.owned.exclusive _ _ _ _ _ hqheld hheld
        exact hut rfl
      simp [Descriptors.thread, hq, hqp]
    refine h.same (fun j => ?_) rfl
    by_cases hj : j = .client t
    · subst hj
      exact ⟨by simp [held, hm.here, hm.there, hsocket, hsocket'],
        by simp [holds, hm.here, hm.there, hsocket, hsocket']⟩
    · exact held_but_client hm hl hfile (fun _ => rfl) hj

omit [DecidableEq τ] in
/-- A step without a descriptor. -/
theorem unmoved (h : Proper base st) (hu : Unmoved st.process s') :
    Proper base { st with process := s' } := by
  have hthread := threadAt_congr hu.clients
  refine h.same (fun j => ⟨?_, ?_⟩) rfl
  · cases j <;> simp [held, hu.closes, hu.connection, hthread, Descriptors.thread]
  · cases j <;> simp [holds, hu.connection, hthread]

omit [DecidableEq τ] in
/-- The main thread at another place, with `server_socket` closed. -/
theorem held_but_server (hcl : s'.clients = st.process.clients)
    (hconn : s'.stack.any hasConnection = st.process.stack.any hasConnection) (hj : j ≠ .server) :
    Keeps st { st with process := s' } j := by
  have hthread := threadAt_congr hcl
  cases j with
  | server => exact absurd rfl hj
  | _ =>
    exact ⟨by simp [held, hconn, hthread, Descriptors.thread], by simp [holds, hconn, hthread]⟩

/-- `close(server_socket)`, for the first time or while its number is not in use. -/
theorem closeServer (h : Proper base st) (hcl : s'.clients = st.process.clients)
    (hconn : s'.stack.any hasConnection = st.process.stack.any hasConnection)
    (hcloses : st.serverSocket.isSome = true → s'.closes = st.process.closes + 1)
    (hstray : 0 < st.process.closes → (st.serverSocket.bind st.table).isSome = false) :
    Proper base { st.close st.serverSocket with process := s' } := by
  cases hs : st.serverSocket with
  | none =>
    refine h.same (fun j => ?_) rfl
    by_cases hj : j = .server
    · subst hj
      exact ⟨by simp [held, close, hs], rfl⟩
    · exact held_but_server hcl hconn hj
  | some n =>
    rw [hs] at hcloses hstray
    have hserver : { st.close (some n) with process := s' }.held .server = none := by
      simp [held, hcloses rfl]
    by_cases hc : st.process.closes = 0
    · have hheld : st.held .server = some (n, .socket) := by simp [held, hc, hs]
      refine h.release hheld hserver rfl (fun j hj => ?_) rfl
      have hkeeps := held_but_server hcl hconn hj
      exact ⟨hkeeps.held, hkeeps.holds⟩
    · -- the number is free already
      have htable : st.table n = none := by
        simpa using hstray (Nat.pos_of_ne_zero hc)
      refine h.same (fun j => ?_) (Function.update_eq_self_iff.mpr htable.symm)
      by_cases hj : j = .server
      · subst hj
        exact ⟨hserver.trans (by simp [held, hc]), rfl⟩
      · have hkeeps := held_but_server hcl hconn hj
        exact ⟨hkeeps.held, hkeeps.holds⟩

/-- The same while somebody else has the number. -/
theorem not_closeServer {n : Nat} (h : Proper base st) (hcl : s'.clients = st.process.clients)
    (hconn : s'.stack.any hasConnection = st.process.stack.any hasConnection)
    (hc : 0 < st.process.closes) (hc' : 0 < s'.closes) (hs : st.serverSocket = some n)
    (hbase : base n = none) (hin : st.table n = some o) :
    ¬ Proper base { st.close st.serverSocket with process := s' } := fun h' => by
  have hheld : { st.close (some n) with process := s' }.held = st.held := funext fun j => by
    by_cases hj : j = .server
    · simp [hj, held, Nat.ne_of_gt hc, Nat.ne_of_gt hc']
    · exact (held_but_server hcl hconn hj).held
  have hown := h'.owned
  rw [hs, hheld] at hown
  exact h.owned.not_release hin hbase hown

variable {e : DescriptorEvent τ γ}

omit [DecidableEq τ] in
/-- `main` at another place of the accept loop. -/
theorem held_but_accept (st st₁ : Descriptors τ γ) (stack : List (Place τ)) {j : Holder τ}
    (hserver : st₁.serverSocket = st.serverSocket)
    (hthread : ∀ u, threadAt hasSocket st.process u = true → st₁.thread u = st.thread u)
    (hfd : st₁.fileDesc = st.fileDesc) (htimer : st₁.timerFile = st.timerFile)
    (hlibrary : st₁.library = st.library) (hj : j ≠ .accept) :
    Keeps st { st₁ with process := { st.process with stack := stack } } j := by
  cases j with
  | accept => exact absurd rfl hj
  | server => exact ⟨by simp [held, hserver], rfl⟩
  | client u =>
    refine ⟨?_, rfl⟩
    have hthread := hthread u
    rw [Descriptors.thread] at hthread
    by_cases hu : threadAt hasSocket st.process u = true
    · simp [held, hu, Descriptors.thread, hthread hu]
    · simp [held, hu]
  | file u => exact ⟨by simp [held, hfd], rfl⟩
  | timer => exact ⟨by simp [held, htimer], rfl⟩
  | library => exact ⟨by simp [held, hlibrary], rfl⟩

omit [DecidableEq τ] in
/-- It keeps the connection that it has, if it has one. -/
theorem keepsConnection (st₁ : Descriptors τ γ) {stack : List (Place τ)} (h : Proper base st)
    (hconn : stack.any hasConnection = st.process.stack.any hasConnection)
    (hsocket : stack.any hasConnection = true →
      st₁.clientSocket = st.clientSocket ∧ st₁.clientAddr = st.clientAddr)
    (hserver : st₁.serverSocket = st.serverSocket)
    (hthread : ∀ u, threadAt hasSocket st.process u = true → st₁.thread u = st.thread u)
    (hfd : st₁.fileDesc = st.fileDesc) (htimer : st₁.timerFile = st.timerFile)
    (hlibrary : st₁.library = st.library) (htable : st₁.table = st.table) :
    Proper base { st₁ with process := { st.process with stack := stack } } := by
  refine h.same (fun j => ?_) htable
  by_cases hj : j = .accept
  · subst hj
    refine ⟨?_, hconn⟩
    simp only [held, ← hconn]
    split
    · rename_i hyes
      rw [(hsocket hyes).1, (hsocket hyes).2]
    · rfl
  · exact held_but_accept st st₁ stack hserver hthread hfd htimer hlibrary hj

/-- It takes a connection. -/
theorem accepts {stack : List (Place τ)} {n : Nat} (h : Proper base st)
    (hno : st.process.stack.any hasConnection = false) (hyes : stack.any hasConnection = true)
    (hn : st.table n = none) :
    Proper base { st with
      table := Function.update st.table n (some (.connection addr))
      clientSocket := some n
      clientAddr := addr
      process := { st.process with stack := stack } } := by
  have hothers := fun j hj => held_but_accept (j := j) st { st with
    table := Function.update st.table n (some (.connection addr))
    clientSocket := some n
    clientAddr := addr } stack rfl (fun _ _ => rfl) rfl rfl rfl hj
  exact h.acquire (i := .accept) (by simp [held, hno]) hn (by simp [held, hyes]) hothers rfl

/-- It closes its connection. -/
theorem closesConnection (st₁ : Descriptors τ γ) {stack : List (Place τ)} (h : Proper base st)
    (hyes : st.process.stack.any hasConnection = true) (hno : stack.any hasConnection = false)
    (hserver : st₁.serverSocket = st.serverSocket)
    (hthread : ∀ u, threadAt hasSocket st.process u = true → st₁.thread u = st.thread u)
    (hfd : st₁.fileDesc = st.fileDesc) (htimer : st₁.timerFile = st.timerFile)
    (hlibrary : st₁.library = st.library) (htable : st₁.table = st.table) :
    Proper base { st₁.close st.clientSocket with
      process := { st.process with stack := stack } } := by
  obtain ⟨n, hn, hheld⟩ := h.held_accept hyes
  rw [hn]
  have hothers := fun j hj => held_but_accept (j := j) st (st₁.close (some n)) stack
    hserver hthread hfd htimer hlibrary hj
  refine h.release hheld (by simp [held, hno]) hno hothers ?_
  rw [← htable]
  rfl

/-- `pthread_create` passes the connection of `main` to the thread. -/
theorem created {stack : List (Place τ)} (h : Proper base st) (hb : Blocks st)
    (hyes : st.process.stack.any hasBlock = true) (hno : stack.any hasConnection = false)
    (hconn : st.process.stack.any hasConnection = true) (hnew : st.process.clients t = none) :
    Proper base { st with
      arg := Function.update st.arg t st.threadData
      process := { st.process with
        clients := Function.update st.process.clients t (some .start), stack := stack } } := by
  obtain ⟨n, hn, hheld⟩ := h.held_accept hconn
  obtain ⟨p, hp, hd, -⟩ := hb.main hyes
  have hold : ∀ f, threadAt f st.process t = false := fun f => by simp [threadAt, hnew]
  refine h.transfer (j := .client t) hheld (by simp [held, hold]) (by simp [held, hno]) hno ?_
    (fun k hk hkt => ?_) rfl
  · simp [held, threadAt_created, hasSocket, Client.holding, Descriptors.thread, hp, hd, hn]
  · cases k with
    | accept => exact absurd rfl hk
    | server | timer | library => exact ⟨rfl, rfl⟩
    | client u =>
      have hut : u ≠ t := fun hut => hkt (by rw [hut])
      exact ⟨by simp [held, threadAt_created, hut, Descriptors.thread],
        by simp [holds, threadAt_created, hut]⟩
    | file u =>
      by_cases hut : u = t
      · subst hut
        exact ⟨by simp [held, threadAt_created, hasFile, Client.holding, hold],
          by simp [holds, threadAt_created, hasFile, Client.holding, hold]⟩
      · exact ⟨by simp [held, threadAt_created, hut], by simp [holds, threadAt_created, hut]⟩

/-- Every step that is not a stray close keeps it. -/
theorem effect (h : Proper base st) (hb : Blocks st) (hr : Ready st) (he : Effect st e st')
    (hstray : ¬ Stray st e) : Proper base st' := by
  have hclean : e.ofMain = true → (st.process.stack.head?.any closesServer) = true →
      0 < st.process.closes → (st.serverSocket.bind st.table).isSome = false :=
    fun hmain hhead hc => by
      by_contra hin
      exact hstray ⟨hmain, hhead, hc, by simpa only [Bool.not_eq_false] using hin⟩
  cases he with
  | idle hu => exact h.unmoved hu
  | client hm hu => exact h.client hb hm hu
  | @socket n hstack hn =>
    have hnone := hr.before (by simp [hstack, beforeSocket])
    refine h.acquire (i := .server) (o := .socket) (by simp [held, hnone]) hn (by simp [held])
      (fun j hj => ?_) rfl
    cases j with
    | server => exact absurd rfl hj
    | accept => exact ⟨by simp [held, hstack, hasConnection], by simp [holds, hstack, hasConnection]⟩
    | _ => exact ⟨rfl, rfl⟩
  | socketFails hstack =>
    have hnone := hr.before (by simp [hstack, beforeSocket])
    refine h.same (fun j => ?_) rfl
    cases j with
    | server => exact ⟨by simp [held, hnone], rfl⟩
    | accept => exact ⟨by simp [held, hstack, hasConnection], by simp [holds, hstack, hasConnection]⟩
    | _ => exact ⟨rfl, rfl⟩
  | setupClose hmain hstack =>
    exact h.closeServer rfl (by simp [hstack, hasConnection]) (fun _ => rfl)
      (hclean hmain (by simp [hstack, closesServer]))
  | closeServer hmain hstack =>
    exact h.closeServer rfl (by simp [hstack, hasConnection])
      (fun hsome => by simp [hr.serverSocket, hsome]) (hclean hmain (by simp [hstack, closesServer]))
  | accept hstack _ hn => exact h.accepts (by simp [hstack, hasConnection]) rfl hn
  | acceptFails hstack =>
    exact keepsConnection { st with clientSocket := none } h (by simp [hstack, hasConnection])
      (fun hyes => by cases hyes) rfl (fun _ _ => rfl) rfl rfl rfl rfl
  | @malloc q hstack hq =>
    refine keepsConnection { st with
        data := Function.update st.data q (some ⟨st.clientSocket, st.clientAddr⟩)
        threadData := some q }
      h (by simp [hstack, hasConnection]) (fun _ => ⟨rfl, rfl⟩) rfl (fun u hu => ?_) rfl rfl rfl rfl
    -- the block is new
    obtain ⟨r, d, hr, hd, -⟩ := hb.thread (threadAt_hasData hu)
    refine thread_update rfl rfl fun hrq => ?_
    obtain rfl : r = q := Option.some.inj (hr.symm.trans hrq)
    rw [hq] at hd
    cases hd
  | mallocFails hstack =>
    have hswap : ∀ fd s', { st.close fd with threadData := none, process := s' } =
        { ({ st with threadData := none } : Descriptors τ γ).close fd with process := s' } :=
      fun fd _ => by cases fd <;> rfl
    rw [hswap]
    exact closesConnection { st with threadData := none } h (by simp [hstack, hasConnection])
      rfl rfl (fun _ _ => rfl) rfl rfl rfl rfl
  | createFails hstack =>
    obtain ⟨p, hp, hd, hblock⟩ := hb.main (by simp [hstack, hasBlock])
    rw [hp, free_some hd]
    refine closesConnection _ h (by simp [hstack, hasConnection]) rfl rfl (fun u hu => ?_) rfl rfl rfl
      rfl
    -- the block of the thread is another one
    obtain ⟨q, -, hq, -, hheld⟩ := hb.thread (threadAt_hasData hu)
    refine thread_update rfl rfl fun hqp => ?_
    obtain rfl : q = p := Option.some.inj (hq.symm.trans hqp)
    cases hb.owned.exclusive _ _ _ _ _ hheld hblock
  | created hstack hnew =>
    exact h.created hb (by simp [hstack, hasBlock]) rfl (by simp [hstack, hasConnection]) hnew
  | @timerOpens n hopening hn =>
    refine h.acquire (i := .timer) (o := .file) (by simp [held, hopening]) hn (by simp [held])
      (fun j hj => ?_) rfl
    cases j with
    | timer => exact absurd rfl hj
    | _ => exact ⟨rfl, rfl⟩
  | timerOpenFails hopening =>
    refine h.same (fun j => ?_) rfl
    cases j with
    | timer => exact ⟨by simp [held, hopening], rfl⟩
    | _ => exact ⟨rfl, rfl⟩
  | @timerCloses n hwriting =>
    refine h.release (i := .timer) (n := n) (o := .file) (by simp [held, hwriting]) (by simp [held])
      rfl (fun j hj => ?_) rfl
    cases j with
    | timer => exact absurd rfl hj
    | _ => exact ⟨rfl, rfl⟩
  | timerLeaves hu hclosed =>
    refine (h.unmoved hu).same (fun j => ?_) rfl
    cases j with
    | timer => exact ⟨by simp [held, hclosed], rfl⟩
    | _ => exact ⟨rfl, rfl⟩
  | @libraryOpens i n hi hn =>
    refine h.acquire (i := .library i) (o := .library) (by simp [held, hi]) hn (by simp [held])
      (fun j hj => ?_) rfl
    cases j with
    | library k =>
      have hki : k ≠ i := fun hki => hj (by rw [hki])
      exact ⟨by simp [held, hki], rfl⟩
    | _ => exact ⟨rfl, rfl⟩
  | @libraryCloses i n hi =>
    refine h.release (i := .library i) (n := n) (o := .library) (by simp [held, hi]) (by simp [held])
      rfl (fun j hj => ?_) rfl
    cases j with
    | library k =>
      have hki : k ≠ i := fun hki => hj (by rw [hki])
      exact ⟨by simp [held, hki], rfl⟩
    | _ => exact ⟨rfl, rfl⟩

end Proper

/-! ## Runs -/

variable {base : Nat → Option (Object γ)} {e : DescriptorEvent τ γ}
  {tr : List (DescriptorEvent τ γ)}

omit [DecidableEq τ] in
theorem proper_start (base : Nat → Option (Object γ)) (addr : γ) :
    Proper base (init τ base addr) := by
  have hheld : (init τ base addr).held = fun _ => none := by
    funext i
    cases i <;> rfl
  refine ⟨?_, fun i hi => ?_⟩
  · rw [hheld]
    exact .start
  · cases i <;> cases hi

/-- What holds until the first stray close. -/
structure Sound (base : Nat → Option (Object γ)) (st : Descriptors τ γ) : Prop where
  ready : Ready st
  blocks : Blocks st
  proper : Proper base st
  number : ∀ n, st.serverSocket = some n → base n = none

/-- `server_socket` keeps its number, once it has one. -/
theorem number_effect (h : Sound base st) (he : Effect st e st') :
    ∀ n, st'.serverSocket = some n → base n = none := by
  cases he with
  | @socket n _ hn =>
    intro m hm
    obtain rfl : n = m := Option.some.inj hm
    exact (h.proper.owned.free hn).2
  | socketFails => exact nofun
  | client _ hu => cases hu <;> simpa [useData] using h.number
  | setupClose | closeServer | mallocFails | createFails => simpa using h.number
  | _ => exact h.number

theorem Sound.next (h : Sound base st) (hn : (lts τ γ b daemonMode).next st e = some st')
    (hstray : ¬ Stray st e) : Sound base st' := by
  have he := effect_of_next h.ready.frames hn
  exact ⟨h.ready.next hn, h.blocks.effect he, h.proper.effect h.blocks h.ready he hstray,
    number_effect h he⟩

omit [DecidableEq τ] in
theorem Sound.start (base : Nat → Option (Object γ)) (addr : γ) :
    Sound base (init τ base addr) :=
  ⟨Ready.start base addr, Blocks.start base addr, proper_start base addr, nofun⟩

/-- A stray close takes the number from whoever has it. -/
theorem Sound.not_proper (h : Sound base st) (hn : (lts τ γ b daemonMode).next st e = some st')
    (hstray : Stray st e) : ¬ Proper base st' := by
  obtain ⟨hmain, hhead, hcloses, hin⟩ := hstray
  obtain ⟨o, ho⟩ := Option.isSome_iff_exists.mp hin
  obtain ⟨n, hserver, htable⟩ := Option.bind_eq_some_iff.mp ho
  have hbase := h.number n hserver
  cases e with
  | process a fresh addr =>
    cases a with
    | main ok =>
      obtain ⟨s', st₁, hs', hst₁, rfl⟩ := next_process hn
      obtain ⟨p, rest, hstack, hstep⟩ := Process.next_main hs'
      simp only [call, hstack] at hst₁
      rw [hstack] at hhead
      cases p with
      | setupClose =>
        cases hst₁
        cases hstep
        exact h.proper.not_closeServer rfl (by simp [hstack, hasConnection]) hcloses
          (Nat.succ_pos _) hserver hbase htable
      | closeServer =>
        cases hst₁
        cases hstep
        exact h.proper.not_closeServer rfl (by simp [hstack, hasConnection]) hcloses
          (by simp [h.ready.serverSocket, hserver]) hserver hbase htable
      | _ => cases hhead
    | _ => cases hmain
  | _ => cases hmain

/-- What holds after a run without a stray close. -/
theorem Sound.run (hrun : (lts τ γ b daemonMode).run (init τ base addr) tr = some st)
    (hclean : (lts τ γ b daemonMode).Along (fun st e => ¬ Stray st e) (init τ base addr) tr) :
    Sound base st :=
  Lts.run_invariant_of (fun _ _ _ h hs hn => h.next hn hs) (Sound.start base addr) hclean hrun

/-- Up to every point of a run all descriptors are all right iff no close until then was a stray one. -/
theorem proper_iff (hrun : (lts τ γ b daemonMode).run (init τ base addr) tr = some st) :
    (∀ u v m, tr = u ++ v → (lts τ γ b daemonMode).run (init τ base addr) u = some m →
        Proper base m) ↔
      (lts τ γ b daemonMode).Along (fun st e => ¬ Stray st e) (init τ base addr) tr := by
  refine ⟨fun hall => ?_, fun hclean u v m htr hu => ?_⟩
  · rcases Lts.along_or_first (C := fun st e => ¬ Stray st e) hrun with
      hclean | ⟨u, e, v, m, rfl, hu, hclean, hstray⟩
    · exact hclean
    · -- after the first stray close somebody's descriptor is gone
      obtain ⟨r, hr, hv⟩ := Lts.run_append_eq_some.mp hrun
      obtain rfl : m = r := Option.some.inj (hu.symm.trans hr)
      obtain ⟨m', hm', -⟩ := Lts.run_cons_eq_some.mp hv
      refine absurd ?_ ((Sound.run hu hclean).not_proper hm' (not_not.mp hstray))
      exact hall (u ++ [e]) v m' (by simp) (Lts.run_snoc_eq_some.mpr ⟨m, hu, hm'⟩)
  · subst htr
    exact (Sound.run hu hclean.left).proper

/-- In a run without a stray close, from `pthread_create` until the thread closes its socket, its number
is the one that `accept` returned for it and refers to that connection, and nobody else has it. -/
theorem own_connection {u v : List (DescriptorEvent τ γ)} {t : τ} {n : Nat} {addr' : γ}
    {m m' : Descriptors τ γ} (hu : (lts τ γ b daemonMode).run (init τ base addr) u = some m)
    (hm' : (lts τ γ b daemonMode).next m (.process (.created t) n addr') = some m')
    (hv : (lts τ γ b daemonMode).run m' v = some st)
    (hclean : (lts τ γ b daemonMode).Along (fun st e => ¬ Stray st e) (init τ base addr)
      (u ++ .process (.created t) n addr' :: v))
    (ht : threadAt hasSocket st.process t = true) :
    ∃ k, m.clientSocket = some k ∧ st.socketOf t = some k ∧
      st.table k = some (.connection m.clientAddr) ∧
      (∀ t', threadAt hasSocket st.process t' = true → st.socketOf t' = some k → t' = t) ∧
      (∀ t', threadAt hasFile st.process t' = true → st.fileDesc t' ≠ some k) ∧
      st.timerFile ≠ .writing k ∧ ∀ i, st.library i ≠ some k := by
  obtain ⟨hready, hb⟩ := run_blocks hu
  have hhanded := ((handed_created hb hm').run (hready.next hm')
    (hb.effect (effect_of_next hready.frames hm')) hv).data (threadAt_hasData ht)
  have hproper := (Sound.run (Lts.run_append_eq_some.mpr
    ⟨m, hu, Lts.run_cons_eq_some.mpr ⟨m', hm', hv⟩⟩) hclean).proper
  obtain ⟨k, d, hd, hk, hheld⟩ := hproper.held_client ht
  obtain rfl : _ = d := Option.some.inj (hhanded.symm.trans hd)
  refine ⟨k, ?_, hk, (hproper.owned.own _ _ _ hheld).1, fun t' ht' hk' => ?_, fun t' ht' hk' => ?_,
    fun hk' => ?_, fun i hk' => ?_⟩
  · rwa [socketOf, hd, Option.bind_some] at hk
  · obtain ⟨k', d', -, hk'', hheld'⟩ := hproper.held_client ht'
    obtain rfl : k = k' := Option.some.inj (hk'.symm.trans hk'')
    cases hproper.owned.exclusive _ _ _ _ _ hheld' hheld
    rfl
  · obtain ⟨k', hk'', hheld'⟩ := hproper.held_file ht'
    obtain rfl : k = k' := Option.some.inj (hk'.symm.trans hk'')
    cases hproper.owned.exclusive _ _ _ _ _ hheld' hheld
  · have hheld' : st.held .timer = some (k, .file) := by rw [held, hk']
    cases hproper.owned.exclusive _ _ _ _ _ hheld' hheld
  · have hheld' : st.held (.library i) = some (k, .library) := by rw [held, hk']; rfl
    cases hproper.owned.exclusive _ _ _ _ _ hheld' hheld

instance (st : Descriptors τ γ) (e : DescriptorEvent τ γ) : Decidable (Stray st e) :=
  inferInstanceAs (Decidable (_ ∧ _ ∧ _ ∧ _))

/-- `SIGINT` comes, and `cleanup_on_signal` closes 3 and joins the thread. Somebody takes the number,
and then `SIGTERM` comes, and its handler closes 3. -/
def interruptTwice (taken : List (DescriptorEvent Nat Nat)) : List (DescriptorEvent Nat Nat) :=
  plain (.signal .int :: List.replicate 5 (.main true)) ++ taken ++
    plain (.signal .term :: List.replicate 3 (.main true))

/-- The thread receives data and opens the device, as 3. -/
def opensDevice : List (DescriptorEvent Nat Nat) :=
  plain [.client 0 (.recv (some [97])), .client 0 (.lock .file true)] ++
    [.process (.client 0 (.open true)) 3 0]

/-- While one client goes and another one comes all is right; after the second signal the file of the
thread, or the socket of `syslog`, is closed behind its back. -/
theorem proper_iff_interruptTwice :
    (∀ u v m, connect ++ .process (.created 0) 0 0 :: (await 4 0 ++ reconnect) = u ++ v →
        (lts Nat Nat .charDevice false).run (init Nat streams 0) u = some m → Proper streams m) ∧
      ∀ taken ∈ [opensDevice, [.libraryOpen 0 3]],
        ¬ ∀ u v m, connect ++ .process (.created 0) 0 0 :: (await 4 0 ++ interruptTwice taken) =
            u ++ v →
          (lts Nat Nat .charDevice false).run (init Nat streams 0) u = some m →
          Proper streams m := by
  obtain ⟨st, hst⟩ : ∃ st, (lts Nat Nat .charDevice false).run (init Nat streams 0)
      (connect ++ .process (.created 0) 0 0 :: (await 4 0 ++ reconnect)) = some st :=
    Option.isSome_iff_exists.mp (by decide)
  have hstray : ∀ taken ∈ [opensDevice, [.libraryOpen 0 3]],
      ((lts Nat Nat .charDevice false).run (init Nat streams 0)
        (connect ++ .process (.created 0) 0 0 :: (await 4 0 ++ interruptTwice taken))).isSome = true ∧
      ¬ (lts Nat Nat .charDevice false).Along (fun st e => ¬ Stray st e) (init Nat streams 0)
        (connect ++ .process (.created 0) 0 0 :: (await 4 0 ++ interruptTwice taken)) := by
    decide
  refine ⟨(proper_iff hst).mpr (by decide), fun taken htaken h => ?_⟩
  obtain ⟨hsome, hnot⟩ := hstray taken htaken
  obtain ⟨st', hst'⟩ := Option.isSome_iff_exists.mp hsome
  exact hnot ((proper_iff hst').mp h)

/-- The second thread waits for the client 8, on the number that the first one had. -/
theorem own_connection_reused :
    ∃ st, (lts Nat Nat .charDevice false).run (init Nat streams 0)
        (connect ++ .process (.created 0) 0 0 :: (await 4 0 ++ reconnect) ++
          .process (.created 1) 0 0 :: await 6 1) = some st ∧
      st.socketOf 1 = some 4 ∧ st.table 4 = some (.connection 8) := by
  obtain ⟨m, m', st, hm, hm', hst, hsocket, haddr, hthread, -⟩ := connect_reconnect
  obtain ⟨k, hk, hkt, htable, -⟩ := own_connection hm hm' hst (by decide) hthread
  obtain rfl : k = 4 := Option.some.inj (hk.symm.trans hsocket)
  rw [haddr] at htable
  exact ⟨st, Lts.run_append_eq_some.mpr ⟨m, hm, Lts.run_cons_eq_some.mpr ⟨m', hm', hst⟩⟩, hkt, htable⟩

end Descriptors

end Aesd
