import Aesd.Driver.Ledger
import Aesd.Driver.OpenFiles

/-!
# Loading and unloading the module (`main.c`, `aesd-char-device.c`)

`aesd_init` with `aesd_setup_cdev`, and `aesd_exit` with `aesd_cleanup_device`, statement by
statement, with any failures, any number of times, interleaved with the users of the device. The
kernel's part: it calls `aesd_init` on `insmod` and `aesd_exit` on `rmmod`, it opens a file only if
the cdev is registered and the module is not on its way out, and an open file keeps the module in
use (`.owner`). The heap and the regions of other drivers outlive the module.

* `moduleLts`: the system. A use of an interface of the kernel that it forbids sets `misused`.
* `ModuleState.Ok`: the invariant, by the place in the two functions.
* `module_safe`: no misuse, and files are open only on a device that holds what was written since it
  was loaded. `module_balanced`: what a load takes is given back, whether it fails or is undone.
-/

namespace Aesd

/-- The next statement of `aesd_init` or of `aesd_exit`. -/
inductive ModulePc where
  | unloaded
  /-- `aesd_init`: `alloc_chrdev_region`; `dev` is its result. -/
  | allocRegion
  | initDevice (dev : Nat)
  /-- `aesd_setup_cdev`. -/
  | setupCdev (dev : Nat)
  /-- The clean-up when it fails. -/
  | undoRegion (dev : Nat)
  | undoMutex
  /-- `pr_info`, before the return. -/
  | announce
  | loaded
  /-- `aesd_exit`, with its `devno`. -/
  | cleanupDevice (devno : Nat)
  | cdevDel (devno : Nat)
  | destroyMutex (devno : Nat)
  | unregister (devno : Nat)
  deriving DecidableEq, Repr

namespace ModulePc

/-- The region of device numbers is allocated. -/
def hasRegion : ModulePc → Bool
  | unloaded | allocRegion | undoMutex => false
  | _ => true

/-- The cdev is registered. -/
def hasCdev : ModulePc → Bool
  | announce | loaded | cleanupDevice _ | cdevDel _ => true
  | _ => false

/-- `aesd_device.lock` is a mutex. -/
def hasMutex : ModulePc → Bool
  | unloaded | allocRegion | initDevice _ | unregister _ => false
  | _ => true

/-- `try_module_get` gets a reference: `aesd_exit` has not begun. -/
def isLive : ModulePc → Bool
  | cleanupDevice _ | cdevDel _ | destroyMutex _ | unregister _ => false
  | _ => true

/-- The device is between its initialisation and its clean-up. -/
def hasDevice : ModulePc → Bool
  | setupCdev _ | announce | loaded | cleanupDevice _ => true
  | _ => false

/-- The device may own blocks of the heap. -/
def hasBlocks : ModulePc → Bool
  | announce | loaded | cleanupDevice _ => true
  | _ => false

/-- Files can be opened. -/
def accepts : ModulePc → Bool
  | announce | loaded => true
  | _ => false

/-- Before the device is initialised. -/
def isNew : ModulePc → Bool
  | allocRegion | initDevice _ => true
  | _ => false

/-- `dev` or `devno`. -/
def devno : ModulePc → Option Nat
  | initDevice dev | setupCdev dev | undoRegion dev => some dev
  | cleanupDevice devno | cdevDel devno | destroyMutex devno | unregister devno => some devno
  | _ => none

end ModulePc

/-- The module in the kernel. -/
structure ModuleState (φ : Type*) where
  pc : ModulePc
  /-- `aesd_major`. -/
  aesdMajor : Nat
  /-- The major numbers that are allocated, also by other drivers. -/
  regions : List Nat
  /-- The major number that the cdev is registered with. -/
  cdev : Option Nat
  /-- `aesd_device.lock` is initialised and not destroyed. -/
  mutexReady : Bool
  driver : Driver
  fPos : φ → Option Int
  /-- The references to the module. -/
  users : Nat
  misused : Bool

/-- A step: of `insmod` or `rmmod`, which the kernel answers with success and a number, or of a
user. -/
inductive ModuleEvent (φ : Type*) where
  | insmod
  | rmmod
  | runs (ok : Bool) (major : Nat)
  | opened (f : φ)
  | called (f : φ) (c : FileCall) (res : ReadResult)
  | released (f : φ)
  deriving DecidableEq

namespace ModuleState

variable {φ : Type*}

/-- Before the first `insmod`, with the regions of other drivers. -/
def start (others : List Nat) : ModuleState φ where
  pc := .unloaded
  aesdMajor := 0
  regions := others
  cdev := none
  mutexReady := false
  driver := aesdInit
  fPos _ := none
  users := 0
  misused := false

/-- What the kernel forbids has happened if `bad`. -/
def require (st : ModuleState φ) (ok : Bool) : ModuleState φ :=
  { st with misused := st.misused || !ok }

/-- `unregister_chrdev_region` of one number. -/
def unregisterRegion (st : ModuleState φ) (dev : Nat) : ModuleState φ :=
  { st.require (st.regions.contains dev) with regions := st.regions.erase dev }

/-- `mutex_destroy`. -/
def mutexDestroy (st : ModuleState φ) : ModuleState φ :=
  { st.require (st.mutexReady && !st.driver.dev.lock) with mutexReady := false }

/-- The next statement of `aesd_init` or of `aesd_exit`. -/
def runStep (st : ModuleState φ) (ok : Bool) (major : Nat) : Option (ModuleState φ) :=
  match st.pc with
  | .unloaded => none
  | .allocRegion =>
    if ok then
      if major ∈ st.regions then none
      else
        some { st with
          regions := major :: st.regions, aesdMajor := major, pc := .initDevice major }
    else some { st with pc := .unloaded }
  -- `memset`, `mutex_init` and `aesd_circular_buffer_init`
  | .initDevice dev =>
    some { st.require (!st.mutexReady && st.users == 0) with
      driver := { dev := aesdInit.dev, heap := st.driver.heap }
      mutexReady := true
      pc := .setupCdev dev }
  | .setupCdev dev =>
    let st := st.require (st.cdev.isNone && st.regions.contains st.aesdMajor)
    some (if ok then { st with cdev := some st.aesdMajor, pc := .announce }
      else { st with pc := .undoRegion dev })
  | .undoRegion dev => some { st.unregisterRegion dev with pc := .undoMutex }
  | .undoMutex => some { st.mutexDestroy with pc := .unloaded }
  | .announce => some { st with pc := .loaded }
  | .loaded => none
  | .cleanupDevice devno =>
    some { st with driver := aesdCleanupDevice st.driver, pc := .cdevDel devno }
  | .cdevDel devno =>
    some { st.require st.cdev.isSome with cdev := none, pc := .destroyMutex devno }
  | .destroyMutex devno => some { st.mutexDestroy with pc := .unregister devno }
  | .unregister devno => some { st.unregisterRegion devno with pc := .unloaded }

end ModuleState

variable {φ : Type*} [DecidableEq φ]

/-- The module, its loading and unloading, and its users. -/
def moduleLts (K : Kernel) : Lts (ModuleState φ) (ModuleEvent φ) where
  next st
    | .insmod => if st.pc = .unloaded then some { st with aesdMajor := 0, pc := .allocRegion } else none
    -- `MKDEV(aesd_major, aesd_minor)`
    | .rmmod =>
      if st.pc = .loaded ∧ st.users = 0 then some { st with pc := .cleanupDevice st.aesdMajor }
      else none
    | .runs ok major => st.runStep ok major
    | .opened f =>
      if st.fPos f = none ∧ st.cdev.isSome ∧ st.pc.isLive then
        some { st with fPos := Function.update st.fPos f (some 0), users := st.users + 1 }
      else none
    | .called f c res =>
      match st.fPos f with
      | none => none
      | some p =>
        let (res', s') := c.run K st.driver p
        if res' = res then
          some { st.require st.mutexReady with
            driver := s', fPos := Function.update st.fPos f (some res'.fPos) }
        else none
    | .released f =>
      match st.fPos f with
      | none => none
      | some _ =>
        some { st with fPos := Function.update st.fPos f none, users := st.users - 1 }

/-- The log of the writes since the module was loaded. -/
def logModule (g : LineLog UInt8) : ModuleEvent φ → LineLog UInt8
  | .insmod => .empty
  | .called f c res => logEvent g (.called f c res)
  | _ => g

/-- The log of a trace. -/
def moduleLog (es : List (ModuleEvent φ)) : LineLog UInt8 := es.foldl logModule .empty

omit [DecidableEq φ] in
@[simp] theorem moduleLog_snoc (es : List (ModuleEvent φ)) (e : ModuleEvent φ) :
    moduleLog (es ++ [e]) = logModule (moduleLog es) e := by
  simp [moduleLog]

/-! ## The invariant -/

/-- `n` files are open. -/
def OpenCount (fPos : φ → Option Int) (n : Nat) : Prop :=
  ∃ l : List φ, l.Nodup ∧ l.length = n ∧ ∀ f, f ∈ l ↔ fPos f ≠ none

section

variable {fPos : φ → Option Int} {n : Nat} {f : φ} {p : Int}

theorem OpenCount.opened (h : OpenCount fPos n) (hf : fPos f = none) :
    OpenCount (Function.update fPos f (some p)) (n + 1) := by
  obtain ⟨l, hl, rfl, hmem⟩ := h
  refine ⟨f :: l, List.nodup_cons.mpr ⟨fun hin => (hmem f).mp hin hf, hl⟩, rfl, fun f' => ?_⟩
  by_cases hf' : f' = f
  · subst hf'
    simp
  · rw [Function.update_of_ne hf', List.mem_cons, hmem]
    simp [hf']

theorem OpenCount.moved (h : OpenCount fPos n) (hf : fPos f ≠ none) :
    OpenCount (Function.update fPos f (some p)) n := by
  obtain ⟨l, hl, hlen, hmem⟩ := h
  refine ⟨l, hl, hlen, fun f' => ?_⟩
  by_cases hf' : f' = f
  · subst hf'
    simp [hmem, hf]
  · rw [Function.update_of_ne hf', hmem]

theorem OpenCount.released (h : OpenCount fPos n) (hf : fPos f ≠ none) :
    OpenCount (Function.update fPos f none) (n - 1) := by
  obtain ⟨l, hl, rfl, hmem⟩ := h
  refine ⟨l.erase f, hl.erase f, List.length_erase_of_mem ((hmem f).mpr hf), fun f' => ?_⟩
  rw [hl.mem_erase_iff, hmem]
  by_cases hf' : f' = f
  · subst hf'
    simp
  · rw [Function.update_of_ne hf']
    simp [hf']

omit [DecidableEq φ] in
theorem OpenCount.eq_none (h : OpenCount fPos 0) (f : φ) : fPos f = none := by
  obtain ⟨l, -, hlen, hmem⟩ := h
  rw [List.length_eq_zero_iff] at hlen
  subst hlen
  simpa using hmem f

omit [DecidableEq φ] in
theorem OpenCount.pos (h : OpenCount fPos n) (hf : fPos f ≠ none) : n ≠ 0 := by
  rintro rfl
  exact hf (h.eq_none f)

end

/-- What holds at a place of the module: what is registered, what is initialised, who uses it, and
what the device holds. -/
structure ModuleState.Ok (K : Kernel) (others : List Nat) (st : ModuleState φ)
    (g : LineLog UInt8) : Prop where
  regions : st.regions = if st.pc.hasRegion then st.aesdMajor :: others else others
  fresh : st.pc.hasRegion = true → st.aesdMajor ∉ others
  devno : ∀ d, st.pc.devno = some d → d = st.aesdMajor
  cdev : st.cdev = if st.pc.hasCdev then some st.aesdMajor else none
  mutexReady : st.mutexReady = st.pc.hasMutex
  users : OpenCount st.fPos st.users
  idle : st.pc.accepts = false → st.users = 0
  log : st.pc.isNew = true → g = .empty
  blocks : st.pc.hasBlocks = false → st.driver.heap.Owns K.mem []
  holds : st.pc.hasDevice = true → Holds K st.driver g
  unlocked : st.pc.hasMutex = true → st.driver.dev.lock = false
  fPos : ∀ f p, st.fPos f = some p → 0 ≤ p ∧ p ≤ K.mem
  misused : st.misused = false

variable {K : Kernel} {others : List Nat} {st st' : ModuleState φ} {g : LineLog UInt8} {f : φ}

omit [DecidableEq φ] in
theorem ModuleState.start_ok : (start others : ModuleState φ).Ok K others .empty where
  regions := rfl
  fresh := by simp [start, ModulePc.hasRegion]
  devno := by simp [start, ModulePc.devno]
  cdev := rfl
  mutexReady := rfl
  users := ⟨[], List.nodup_nil, rfl, by simp [start]⟩
  idle _ := rfl
  log _ := rfl
  blocks _ := Heap.owns_empty
  holds := by simp [start, ModulePc.hasDevice]
  unlocked := by simp [start, ModulePc.hasMutex]
  fPos := by simp [start]
  misused := rfl

/-- The device after `aesd_init` has set it up, in a heap in which it owns nothing. -/
theorem holds_fresh {h : Heap UInt8} (ho : h.Owns K.mem []) :
    Holds K { dev := aesdInit.dev, heap := h } .empty :=
  ⟨rfl, LineLog.empty_open, ⟨none, []⟩, ⟨init_refines, rfl, rfl, ho, by simp⟩, rfl⟩

theorem foldl_freeSlot_lock (is : List Nat) (s : Driver) :
    (is.foldl Driver.freeSlot s).dev.lock = s.dev.lock := by
  induction is generalizing s with
  | nil => rfl
  | cons i is ih =>
    rw [List.foldl_cons, ih]
    unfold Driver.freeSlot
    split <;> rfl

theorem aesdCleanupDevice_lock (s : Driver) : (aesdCleanupDevice s).dev.lock = s.dev.lock := by
  unfold aesdCleanupDevice
  rw [foldl_freeSlot_lock]
  split <;> rfl

namespace ModuleState

omit [DecidableEq φ] in
/-- The statements of `aesd_init` and `aesd_exit`. -/
theorem Ok.runStep {ok : Bool} {major : Nat} (h : st.Ok K others g)
    (hs : st.runStep ok major = some st') : st'.Ok K others g := by
  obtain ⟨pc, aesdMajor, regions, cdev, mutexReady, driver, fPos, users, misused⟩ := st
  have hregions := h.regions
  have hcdev := h.cdev
  have hmutex := h.mutexReady
  have hidle := h.idle
  have hmisused := h.misused
  have hunlocked := h.unlocked
  cases pc with
  | unloaded => cases hs
  | loaded => cases hs
  | allocRegion =>
    simp only [ModuleState.runStep] at hs
    split at hs
    · split at hs
      · cases hs
      · rename_i hnew
        cases hs
        obtain rfl : regions = others := hregions
        exact { h with
          regions := rfl
          fresh := fun _ => hnew
          devno := fun d hd => (Option.some.inj hd).symm }
    · cases hs
      exact { h with log := nofun }
  | initDevice dev =>
    cases hs
    obtain rfl : users = 0 := hidle rfl
    obtain rfl : mutexReady = false := hmutex
    obtain rfl : misused = false := hmisused
    obtain rfl : g = .empty := h.log rfl
    exact { h with
      mutexReady := rfl
      log := nofun
      holds := fun _ => holds_fresh (h.blocks rfl)
      unlocked := fun _ => rfl
      misused := rfl }
  | setupCdev dev =>
    obtain rfl : regions = aesdMajor :: others := hregions
    obtain rfl : cdev = none := hcdev
    obtain rfl : misused = false := hmisused
    have hok : (none : Option Nat).isNone && (aesdMajor :: others).contains aesdMajor := by simp
    simp only [ModuleState.runStep, ModuleState.require, hok] at hs
    cases ok <;> cases hs
    · exact { h with
        holds := nofun
        misused := rfl }
    · exact { h with
        devno := nofun
        cdev := rfl
        idle := nofun
        blocks := nofun
        misused := rfl }
  | undoRegion dev =>
    obtain rfl : regions = aesdMajor :: others := hregions
    obtain rfl : dev = aesdMajor := h.devno dev rfl
    obtain rfl : misused = false := hmisused
    cases hs
    exact { h with
      regions := List.erase_cons_head _ _
      fresh := nofun
      devno := nofun
      misused := by simp [ModuleState.unregisterRegion, ModuleState.require] }
  | undoMutex =>
    obtain rfl : mutexReady = true := hmutex
    obtain rfl : misused = false := hmisused
    have hlock : driver.dev.lock = false := hunlocked rfl
    cases hs
    exact { h with
      mutexReady := rfl
      unlocked := nofun
      misused := by simp [ModuleState.mutexDestroy, ModuleState.require, hlock] }
  | announce =>
    cases hs
    exact { h with }
  | cleanupDevice devno =>
    obtain ⟨v, hr, -⟩ := (h.holds rfl).rep
    have howns := (aesdCleanupDevice_spec hr).1
    have hlock : (aesdCleanupDevice driver).dev.lock = false :=
      (aesdCleanupDevice_lock driver).trans (hunlocked rfl)
    simp only [ModuleState.runStep] at hs
    generalize aesdCleanupDevice driver = driver' at hs howns hlock
    cases hs
    exact { h with
      blocks := fun _ => howns
      holds := nofun
      unlocked := fun _ => hlock }
  | cdevDel devno =>
    obtain rfl : cdev = some aesdMajor := hcdev
    obtain rfl : misused = false := hmisused
    cases hs
    exact { h with
      cdev := rfl
      misused := by simp [ModuleState.require] }
  | destroyMutex devno =>
    obtain rfl : mutexReady = true := hmutex
    obtain rfl : misused = false := hmisused
    have hlock : driver.dev.lock = false := hunlocked rfl
    cases hs
    exact { h with
      mutexReady := rfl
      unlocked := nofun
      misused := by simp [ModuleState.mutexDestroy, ModuleState.require, hlock] }
  | unregister devno =>
    obtain rfl : regions = aesdMajor :: others := hregions
    obtain rfl : devno = aesdMajor := h.devno devno rfl
    obtain rfl : misused = false := hmisused
    cases hs
    exact { h with
      regions := List.erase_cons_head _ _
      fresh := nofun
      devno := nofun
      misused := by simp [ModuleState.unregisterRegion, ModuleState.require] }

omit [DecidableEq φ] in
theorem Ok.insmod (h : st.Ok K others g) (hpc : st.pc = .unloaded) :
    ({ st with aesdMajor := 0, pc := .allocRegion } : ModuleState φ).Ok K others .empty := by
  obtain ⟨pc, aesdMajor, regions, cdev, mutexReady, driver, fPos, users, misused⟩ := st
  obtain rfl : pc = .unloaded := hpc
  exact { h with
    devno := nofun
    log := fun _ => rfl
    fresh := nofun
    holds := nofun }

omit [DecidableEq φ] in
theorem Ok.rmmod (h : st.Ok K others g) (hpc : st.pc = .loaded) (hu : st.users = 0) :
    ({ st with pc := .cleanupDevice st.aesdMajor } : ModuleState φ).Ok K others g := by
  obtain ⟨pc, aesdMajor, regions, cdev, mutexReady, driver, fPos, users, misused⟩ := st
  obtain rfl : pc = .loaded := hpc
  exact { h with
    devno := fun d hd => (Option.some.inj hd).symm
    idle := fun _ => hu }

omit [DecidableEq φ] in
/-- A registered cdev of a module that is not being unloaded: files can be opened. -/
theorem Ok.accepts (h : st.Ok K others g) (hc : st.cdev.isSome = true) (hl : st.pc.isLive = true) :
    st.pc.accepts = true := by
  rw [h.cdev] at hc
  cases hpc : st.pc <;> simp_all [ModulePc.hasCdev, ModulePc.isLive, ModulePc.accepts]

omit [DecidableEq φ] in
/-- While a file is open the device is there, and the module is not on its way out. -/
theorem Ok.accepts_of_open (h : st.Ok K others g) (hf : st.fPos f ≠ none) :
    st.pc.accepts = true := by
  by_contra hacc
  exact h.users.pos hf (h.idle (Bool.eq_false_iff.mpr hacc))

end ModuleState

theorem ModulePc.of_accepts {pc : ModulePc} (h : pc.accepts = true) :
    pc.hasMutex = true ∧ pc.hasDevice = true ∧ pc.hasBlocks = true ∧ pc.isNew = false := by
  cases pc <;> simp_all [accepts, hasMutex, hasDevice, hasBlocks, isNew]

/-! ## Runs -/

variable {c : FileCall} {res : ReadResult} {e : ModuleEvent φ} {es : List (ModuleEvent φ)}

theorem next_module_called : (moduleLts K).next st (.called f c res) = some st' ↔
    ∃ p, st.fPos f = some p ∧ (c.run K st.driver p).1 = res ∧
      st' = { st.require st.mutexReady with
        driver := (c.run K st.driver p).2
        fPos := Function.update st.fPos f (some res.fPos) } := by
  simp only [moduleLts]
  cases st.fPos f with
  | none => simp
  | some p =>
    simp only [Option.some.injEq, exists_eq_left']
    constructor
    · intro h
      split at h
      · rename_i hres
        cases h
        exact ⟨hres, by rw [hres]⟩
      · cases h
    · rintro ⟨rfl, rfl⟩
      rw [if_pos rfl]

theorem next_module_released : (moduleLts K).next st (.released f) = some st' ↔
    st.fPos f ≠ none ∧
      st' = { st with fPos := Function.update st.fPos f none, users := st.users - 1 } := by
  simp only [moduleLts]
  cases st.fPos f <;> simp [eq_comm]

namespace ModuleState

/-- A call on an open file is a call on an initialised device, and it ends as it should. -/
theorem Ok.called_outcome (h : st.Ok K others g)
    (hs : (moduleLts K).next st (.called f c res) = some st') :
    ∃ p, st.fPos f = some p ∧ Holds K st.driver g ∧ 0 ≤ p ∧ p ≤ K.mem ∧
      Outcome K st.driver g p c res st'.driver (logModule g (.called f c res)) := by
  obtain ⟨p, hp, hres, rfl⟩ := next_module_called.mp hs
  obtain ⟨-, hdev, -, -⟩ := ModulePc.of_accepts (h.accepts_of_open (f := f) (by simp [hp]))
  obtain ⟨h0, hle⟩ := h.fPos f p hp
  obtain ⟨g', ho⟩ := FileCall.run_cases (h.holds hdev) h0 hle (Prod.ext hres rfl)
  obtain rfl : g' = logModule g (.called f c res) := ho.log_eq f
  exact ⟨p, hp, h.holds hdev, h0, hle, ho⟩

omit [DecidableEq φ] in
theorem Ok.open_device (h : st.Ok K others g) (hf : st.fPos f ≠ none) :
    st.cdev = some st.aesdMajor ∧ st.mutexReady = true ∧ Holds K st.driver g := by
  have hacc := h.accepts_of_open hf
  obtain ⟨hmutex, hdev, -, -⟩ := ModulePc.of_accepts hacc
  refine ⟨h.cdev.trans (if_pos ?_), h.mutexReady.trans hmutex, h.holds hdev⟩
  cases hpc : st.pc <;> simp_all [ModulePc.accepts, ModulePc.hasCdev]

omit [DecidableEq φ] in
theorem Ok.faults (h : st.Ok K others g) : st.driver.heap.faults = [] := by
  cases hb : st.pc.hasBlocks with
  | false => exact (h.blocks hb).faults
  | true =>
    have hdev : st.pc.hasDevice = true := by
      cases hpc : st.pc <;> simp_all [ModulePc.hasBlocks, ModulePc.hasDevice]
    obtain ⟨v, hr, -⟩ := (h.holds hdev).rep
    exact hr.owns.faults

theorem Ok.called (h : st.Ok K others g)
    (hs : (moduleLts K).next st (.called f c res) = some st') :
    st'.Ok K others (logModule g (.called f c res)) := by
  obtain ⟨p, hp, hh, h0, hle, ho⟩ := h.called_outcome hs
  obtain ⟨hmutex, -, hblocks, hnew⟩ :=
    ModulePc.of_accepts (h.accepts_of_open (f := f) (by simp [hp]))
  obtain ⟨hh', hres⟩ := ho.ok hh h0 hle
  obtain ⟨p', hp', -, rfl⟩ := next_module_called.mp hs
  have hready : st.mutexReady = true := h.mutexReady.trans hmutex
  exact { h with
    users := h.users.moved (by simp [hp])
    log := fun hn => absurd (hnew.symm.trans hn) (by simp)
    blocks := fun hb => absurd (hblocks.symm.trans hb) (by simp)
    holds := fun _ => hh'
    unlocked := fun _ => hh'.unlocked
    fPos := fun f' q hq => forall_update h.fPos hres hq
    misused := by simp [ModuleState.require, hready, h.misused] }

theorem Ok.opened (h : st.Ok K others g) (hf : st.fPos f = none) (hc : st.cdev.isSome = true)
    (hl : st.pc.isLive = true) :
    ({ st with fPos := Function.update st.fPos f (some 0), users := st.users + 1 } :
      ModuleState φ).Ok K others g :=
  { h with
    users := h.users.opened hf
    idle := fun hacc => absurd ((h.accepts hc hl).symm.trans hacc) (by simp)
    fPos := fun _ _ hp => forall_update h.fPos ⟨Int.le_refl _, by omega⟩ hp }

theorem Ok.released (h : st.Ok K others g) (hf : st.fPos f ≠ none) :
    ({ st with fPos := Function.update st.fPos f none, users := st.users - 1 } :
      ModuleState φ).Ok K others g :=
  { h with
    users := h.users.released hf
    idle := fun hacc => absurd ((h.accepts_of_open hf).symm.trans hacc) (by simp)
    fPos := by
      intro f' p hp
      by_cases hf' : f' = f
      · subst hf'
        simp at hp
      · simp only [Function.update_of_ne hf'] at hp
        exact h.fPos f' p hp }

theorem Ok.step (h : st.Ok K others g) (hs : (moduleLts K).next st e = some st') :
    st'.Ok K others (logModule g e) := by
  cases e with
  | insmod =>
    simp only [moduleLts] at hs
    split at hs
    · rename_i hpc
      cases hs
      exact h.insmod hpc
    · cases hs
  | rmmod =>
    simp only [moduleLts] at hs
    split at hs
    · rename_i hpc
      cases hs
      exact h.rmmod hpc.1 hpc.2
    · cases hs
  | runs ok major => exact h.runStep hs
  | opened f =>
    simp only [moduleLts] at hs
    split at hs
    · rename_i hf
      cases hs
      exact h.opened hf.1 hf.2.1 hf.2.2
    · cases hs
  | called f c res => exact h.called hs
  | released f =>
    obtain ⟨hf, rfl⟩ := next_module_released.mp hs
    exact h.released hf

end ModuleState

theorem module_ok (h : (moduleLts K).run (.start others) es = some st) :
    st.Ok K others (moduleLog es) := by
  refine Lts.run_history (I := fun es st => st.Ok K others (moduleLog es))
    ModuleState.start_ok ?_ h
  intro es st e st' _ hok hs
  rw [moduleLog_snoc]
  exact hok.step hs

/-- However the module is loaded, used and unloaded, whatever fails: no interface of the kernel is
misused, the driver commits no heap fault, and while a file is open the device holds exactly what
was written since this load, and every call ends as it should. -/
theorem module_safe (K : Kernel) (others : List Nat) (es : List (ModuleEvent φ))
    (st : ModuleState φ) (h : (moduleLts K).run (.start others) es = some st) :
    st.misused = false ∧ st.driver.heap.faults = [] ∧
      (∀ f p, st.fPos f = some p →
        st.cdev = some st.aesdMajor ∧ st.mutexReady = true ∧ Holds K st.driver (moduleLog es) ∧
        0 ≤ p ∧ p ≤ K.mem) ∧
      ∀ f c res st', (moduleLts K).next st (.called f c res) = some st' →
        ∃ p, st.fPos f = some p ∧
          Outcome K st.driver (moduleLog es) p c res st'.driver
            (moduleLog (es ++ [.called f c res])) := by
  have hok := module_ok h
  refine ⟨hok.misused, hok.faults, fun f p hp => ?_, fun f c res st' hs => ?_⟩
  · obtain ⟨hcdev, hmutex, hdev⟩ := hok.open_device (f := f) (by simp [hp])
    exact ⟨hcdev, hmutex, hdev, hok.fPos f p hp⟩
  · obtain ⟨p, hp, -, -, -, ho⟩ := hok.called_outcome hs
    exact ⟨p, hp, by rwa [moduleLog_snoc]⟩

/-- A load in which `cdev_add` fails, and another one. -/
def failAndLoad : List (ModuleEvent Nat) :=
  [.insmod, .runs true 250, .runs true 0, .runs false 0, .runs true 0, .runs true 0,
    .insmod, .runs true 251, .runs true 0, .runs true 0, .runs true 0]

theorem module_safe_write :
    ∃ st : ModuleState Nat,
      (moduleLts kernel64).run (.start [1, 4])
        (failAndLoad ++ [.opened 0, .called 0 (.write .succeeds (some [97, 10])) ⟨2, [], 0⟩]) =
          some st ∧
      st.misused = false ∧ Holds kernel64 st.driver { committed := [[97, 10]], pending := [] } := by
  have hrun : (((moduleLts kernel64).run (.start [1, 4])
      (failAndLoad ++ [.opened 0, .called 0 (.write .succeeds (some [97, 10])) ⟨2, [], 0⟩])).map
        fun st => st.fPos 0) = some (some 0) := by decide
  obtain ⟨st, hst, hpos⟩ := Option.map_eq_some_iff.mp hrun
  obtain ⟨hmis, -, hopen, -⟩ := module_safe kernel64 [1, 4] _ st hst
  obtain ⟨-, -, hh, -⟩ := hopen 0 0 hpos
  exact ⟨st, hst, hmis, hh⟩

/-- What a load takes is given back: out of memory the module holds no device number, no cdev, no
mutex, no block of the heap and no open file, whether a load failed or was undone. A loaded module
has a number of its own, under which its cdev is registered. -/
theorem module_balanced (K : Kernel) (others : List Nat) (es : List (ModuleEvent φ))
    (st : ModuleState φ) (h : (moduleLts K).run (.start others) es = some st) :
    (st.pc = .unloaded → st.regions = others ∧ st.cdev = none ∧ st.mutexReady = false ∧
      st.driver.heap.ids = [] ∧ ∀ f, st.fPos f = none) ∧
    (st.pc = .loaded → st.regions = st.aesdMajor :: others ∧ st.aesdMajor ∉ others ∧
      st.cdev = some st.aesdMajor ∧ st.mutexReady = true) := by
  have hok := module_ok h
  constructor
  · intro hpc
    have hregions := hok.regions
    have hcdev := hok.cdev
    have hmutex := hok.mutexReady
    have hids := (hok.blocks (by rw [hpc]; rfl)).ids_perm.eq_nil
    have husers := hok.users
    rw [hok.idle (by rw [hpc]; rfl)] at husers
    rw [hpc] at hregions hcdev hmutex
    exact ⟨hregions, hcdev, hmutex, hids, husers.eq_none⟩
  · intro hpc
    have hregions := hok.regions
    have hcdev := hok.cdev
    have hmutex := hok.mutexReady
    have hfresh := hok.fresh (by rw [hpc]; rfl)
    rw [hpc] at hregions hcdev hmutex
    exact ⟨hregions, hfresh, hcdev, hmutex⟩

theorem module_balanced_reload :
    ∃ st : ModuleState Nat,
      (moduleLts kernel64).run (.start [1, 4])
        (failAndLoad ++ [.opened 0, .called 0 (.write .succeeds (some [97, 10])) ⟨2, [], 0⟩,
          .released 0, .rmmod, .runs true 0, .runs true 0, .runs true 0, .runs true 0]) = some st ∧
      st.regions = [1, 4] ∧ st.driver.heap.ids = [] := by
  have hrun : (((moduleLts kernel64).run (.start [1, 4])
      (failAndLoad ++ [.opened 0, .called 0 (.write .succeeds (some [97, 10])) ⟨2, [], 0⟩,
        .released 0, .rmmod, .runs true 0, .runs true 0, .runs true 0, .runs true 0])).map
        fun st => st.pc) = some .unloaded := by decide
  obtain ⟨st, hst, hpc⟩ := Option.map_eq_some_iff.mp hrun
  obtain ⟨hregions, -, -, hids, -⟩ := (module_balanced kernel64 [1, 4] _ st hst).1 hpc
  exact ⟨st, hst, hregions, hids⟩

end Aesd
