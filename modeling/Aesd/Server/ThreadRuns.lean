import Aesd.Server.ThreadList

/-!
# Whole runs of the thread list

`Intact` is the invariant of the list, the threads and what has left the list, over every
interleaving of the steps of `Registry.lts`. Its part `Owned` says which thread has which node; a
step changes the phase of one thread (`Owned.update`), or joins threads (`Owned.dispose`).

`threadList_intact`: in every run the list is what it should be, no step faults or runs forever, and
what leaves the list is joined once and freed once.
-/

namespace Aesd

open LinkedList (Cell Seg IsList)

namespace Registry

variable {τ : Type} [DecidableEq τ]

/-! ## The invariant -/

/-- The nodes that were registered, newest first: the addresses count them. -/
def registered (evs : List (Action τ)) : List (Nat × τ) :=
  evs.foldl (fun rs a =>
    match a with
    | .add t true => (rs.length, t) :: rs
    | _ => rs) []

/-- Which thread has which node of the list `l`. -/
structure Owned (evs : List (Action τ)) (threads : τ → Phase) (l : List (Nat × ThreadNode τ)) :
    Prop where
  known : ∀ r ∈ registered evs, threads r.2 ≠ .started
  /-- The thread of a node that is not marked has it as `my_node`. -/
  serving : ∀ x ∈ l, x.2.completed = false → threads x.2.thread = .serving (some x.1)
  past : ∀ x ∈ l, x.2.completed = true →
    threads x.2.thread = .returning ∨ threads x.2.thread = .finished
  /-- `my_node` of a thread is listed. -/
  mine : ∀ t a, threads t = .serving (some a) → (a, { thread := t, completed := false }) ∈ l
  marked : ∀ t, .mark t ∈ evs ↔ (threads t).isPast = true

/-- `l` is the list, and the nodes of `removed` have left it, in this order. -/
structure Intact (evs : List (Action τ)) (s : Registry τ) (l : List (Nat × ThreadNode τ))
    (removed : List (Nat × τ)) : Prop where
  list : IsList s.nodes s.head l
  fresh : s.fresh = (registered evs).length
  bound : ∀ a, s.fresh ≤ a → s.nodes a = none
  /-- A thread registers once. -/
  once : ((registered evs).map Prod.snd).Nodup
  owned : Owned evs s.threads l
  order : (l.map ident).Sublist (registered evs)
  all : (l.map ident ++ removed).Perm (registered evs)
  disposals : s.disposals = removed.flatMap disposal

section

variable {evs : List (Action τ)} {e : Action τ} {s s' : Registry τ} {f : τ → Phase}
  {l l' : List (Nat × ThreadNode τ)} {removed : List (Nat × τ)} {t : τ} {a : Nat}

omit [DecidableEq τ] in
theorem registered_snoc (evs : List (Action τ)) (a : Action τ) : registered (evs ++ [a]) =
    match a with
    | .add t true => ((registered evs).length, t) :: registered evs
    | _ => registered evs := by
  rw [registered, List.foldl_append]
  rfl

omit [DecidableEq τ] in
theorem intact_start : Intact ([] : List (Action τ)) start [] [] where
  list := LinkedList.isList_empty
  fresh := rfl
  bound _ _ := rfl
  once := List.nodup_nil
  owned :=
    { known := nofun, serving := nofun, past := nofun, mine := nofun,
      marked := fun t => by simp [start, Phase.isPast] }
  order := List.Sublist.refl _
  all := List.Perm.refl _
  disposals := rfl

omit [DecidableEq τ] in
/-- Every listed node has another thread. -/
theorem Intact.threads_nodup (h : Intact evs s l removed) : (l.map fun x => x.2.thread).Nodup := by
  have hsub := h.order.map Prod.snd
  rw [List.map_map] at hsub
  exact h.once.sublist hsub

omit [DecidableEq τ] in
/-- The thread of a listed node is neither before its registration nor joined. -/
theorem Owned.listed (h : Owned evs f l) {x : Nat × ThreadNode τ} (hx : x ∈ l) :
    f x.2.thread ≠ .started ∧ f x.2.thread ≠ .joined := by
  cases hc : x.2.completed with
  | false =>
    rw [h.serving x hx hc]
    exact ⟨nofun, nofun⟩
  | true =>
    rcases h.past x hx hc with hp | hp
    · rw [hp]
      exact ⟨nofun, nofun⟩
    · rw [hp]
      exact ⟨nofun, nofun⟩

/-- One thread goes on, and only its own node changes. -/
theorem Owned.update {phase : Phase} (h : Owned evs f l)
    (hreg : ∀ r ∈ registered (evs ++ [e]), r.2 ≠ t → r ∈ registered evs)
    (hphase : phase ≠ .started) (hothers : ∀ x, x.2.thread ≠ t → (x ∈ l' ↔ x ∈ l))
    (hserving : ∀ x ∈ l', x.2.thread = t → x.2.completed = false → phase = .serving (some x.1))
    (hpast : ∀ x ∈ l', x.2.thread = t → x.2.completed = true →
      phase = .returning ∨ phase = .finished)
    (hmine : ∀ a, phase = .serving (some a) → (a, { thread := t, completed := false }) ∈ l')
    (hmark : .mark t ∈ evs ++ [e] ↔ phase.isPast = true) (hne : ∀ u, u ≠ t → e ≠ .mark u) :
    Owned (evs ++ [e]) (Function.update f t phase) l' := by
  constructor
  case known =>
    intro r hr
    by_cases hrt : r.2 = t
    · rwa [hrt, Function.update_self]
    · rw [Function.update_of_ne hrt]
      exact h.known r (hreg r hr hrt)
  case serving =>
    intro x hx hc
    by_cases hxt : x.2.thread = t
    · rw [hxt, Function.update_self]
      exact hserving x hx hxt hc
    · rw [Function.update_of_ne hxt]
      exact h.serving x ((hothers x hxt).mp hx) hc
  case past =>
    intro x hx hc
    by_cases hxt : x.2.thread = t
    · rw [hxt, Function.update_self]
      exact hpast x hx hxt hc
    · rw [Function.update_of_ne hxt]
      exact h.past x ((hothers x hxt).mp hx) hc
  case mine =>
    intro u a hu
    by_cases hut : u = t
    · subst hut
      rw [Function.update_self] at hu
      exact hmine a hu
    · rw [Function.update_of_ne hut] at hu
      exact (hothers _ hut).mpr (h.mine u a hu)
  case marked =>
    intro u
    by_cases hut : u = t
    · rw [hut, Function.update_self]
      exact hmark
    · have hmem : Action.mark u ∈ evs ++ [e] ↔ .mark u ∈ evs := by simp [(hne u hut).symm]
      rw [Function.update_of_ne hut, hmem]
      exact h.marked u

omit [DecidableEq τ] in
/-- A thread goes on without marking. -/
theorem Owned.mark_iff {phase : Phase} (h : Owned evs f l) (he : ∀ u, e ≠ .mark u)
    (hphase : (f t).isPast = phase.isPast) : .mark t ∈ evs ++ [e] ↔ phase.isPast = true := by
  rw [← hphase, ← h.marked t]
  simp [(he t).symm]

/-- Threads are joined, and their nodes leave the list. -/
theorem Owned.dispose {gone stay : List (Nat × ThreadNode τ)} (h : Owned evs s.threads l)
    (hreg : registered (evs ++ [e]) = registered evs) (he : ∀ u, e ≠ .mark u)
    (hd : Disposed s gone s') (hperm : (stay ++ gone).Perm l)
    (hthreads : (l.map fun x => x.2.thread).Nodup) : Owned (evs ++ [e]) s'.threads stay := by
  have hnodup : ((stay ++ gone).map fun x => x.2.thread).Nodup :=
    (hperm.map _).nodup_iff.mpr hthreads
  rw [List.map_append] at hnodup
  have hdisj := (List.nodup_append.mp hnodup).2.2
  have hmem : ∀ x ∈ stay, x ∈ l := fun x hx => hperm.subset (List.mem_append_left _ hx)
  have hkeep : ∀ x ∈ stay, s'.threads x.2.thread = s.threads x.2.thread := by
    intro x hx
    rw [hd.threads, if_neg]
    intro hgone
    exact hdisj _ (List.mem_map_of_mem hx) _ hgone rfl
  constructor
  case known =>
    intro r hr
    rw [hd.threads]
    split
    · exact nofun
    · exact h.known r (hreg ▸ hr)
  case serving =>
    intro x hx hc
    rw [hkeep x hx]
    exact h.serving x (hmem x hx) hc
  case past =>
    intro x hx hc
    rw [hkeep x hx]
    exact h.past x (hmem x hx) hc
  case mine =>
    intro u a hu
    rw [hd.threads] at hu
    split at hu
    · cases hu
    · rename_i hgone
      rcases List.mem_append.mp (hperm.symm.subset (h.mine u a hu)) with hx | hx
      · exact hx
      · exact absurd (List.mem_map.mpr ⟨_, hx, rfl⟩) hgone
  case marked =>
    intro u
    rw [hd.threads]
    split
    · obtain ⟨x, hx, rfl⟩ := List.mem_map.mp ‹_›
      exact h.mark_iff he (by rw [hd.finished x hx]; rfl)
    · exact h.mark_iff he rfl

/-- A thread registers its node. -/
theorem Intact.add (h : Intact evs s l removed) (ht : s.threads t = .started) :
    Intact (evs ++ [.add t true]) (s.register t true)
      ((s.fresh, { thread := t, completed := false }) :: l) removed := by
  have hne : ∀ x ∈ l, x.2.thread ≠ t := fun x hx heq => (h.owned.listed hx).1 (heq ▸ ht)
  constructor
  case list => exact h.list.push (h.bound _ (Nat.le_refl _))
  case fresh =>
    rw [registered_snoc]
    exact congrArg (· + 1) h.fresh
  case bound =>
    intro a ha
    have hlt : s.fresh < a := ha
    exact (Function.update_of_ne (Nat.ne_of_gt hlt) ..).trans (h.bound a (Nat.le_of_lt hlt))
  case once =>
    rw [registered_snoc]
    refine List.nodup_cons.mpr ⟨fun hmem => ?_, h.once⟩
    obtain ⟨r, hr, rfl⟩ := List.mem_map.mp hmem
    exact h.owned.known r hr ht
  case owned =>
    apply h.owned.update
    case hreg =>
      intro r hr hrt
      rw [registered_snoc] at hr
      rcases List.mem_cons.mp hr with rfl | hr
      · exact absurd rfl hrt
      · exact hr
    case hphase => simp
    case hothers =>
      intro x hxt
      rw [List.mem_cons]
      refine or_iff_right fun heq => hxt ?_
      rw [heq]
    case hserving =>
      intro x hx hxt _
      rcases List.mem_cons.mp hx with rfl | hx
      · rfl
      · exact absurd hxt (hne x hx)
    case hpast =>
      intro x hx hxt hc
      rcases List.mem_cons.mp hx with rfl | hx
      · cases hc
      · exact absurd hxt (hne x hx)
    case hmine =>
      intro a ha
      obtain rfl := Option.some.inj (Phase.serving.inj ha)
      exact List.mem_cons_self
    case hmark => exact h.owned.mark_iff (by simp) (by rw [ht]; rfl)
    case hne => simp
  case order =>
    rw [registered_snoc, List.map_cons, ident, h.fresh]
    exact h.order.cons_cons _
  case all =>
    rw [registered_snoc, List.map_cons, ident, h.fresh]
    exact h.all.cons _
  case disposals => exact h.disposals

/-- A thread goes on, and the list stays as it is. -/
theorem Intact.setPhase (h : Intact evs s l removed) (t : τ) (phase : Phase)
    (hreg : registered (evs ++ [e]) = registered evs) (hfrom : ∀ n, s.threads t ≠ .serving (some n))
    (hto : phase ≠ .started ∧ ∀ n, phase ≠ .serving (some n))
    (hpast : ∀ x ∈ l, x.2.thread = t → phase = .returning ∨ phase = .finished)
    (hmark : .mark t ∈ evs ++ [e] ↔ phase.isPast = true) (hne : ∀ u, u ≠ t → e ≠ .mark u) :
    Intact (evs ++ [e]) { s with threads := Function.update s.threads t phase } l removed where
  list := h.list
  fresh := hreg ▸ h.fresh
  bound := h.bound
  once := hreg ▸ h.once
  owned := by
    refine h.owned.update (fun r hr _ => hreg ▸ hr) hto.1 (fun _ _ => Iff.rfl)
      (fun x hx hxt hc => ?_) (fun x hx hxt _ => hpast x hx hxt) (fun a ha => absurd ha (hto.2 a))
      hmark hne
    exact absurd (hxt ▸ h.owned.serving x hx hc) (hfrom x.1)
  order := hreg ▸ h.order
  all := hreg ▸ h.all
  disposals := h.disposals

/-- A thread marks its node, which is still allocated. -/
theorem Intact.mark {c : Cell Nat (ThreadNode τ)} (h : Intact evs s l removed)
    (ht : s.threads t = .serving (some a)) (hc : s.nodes a = some c) :
    Intact (evs ++ [.mark t])
      { s with
        nodes := Function.update s.nodes a
          (some { val := { c.val with completed := true }, next := c.next })
        threads := Function.update s.threads t .returning }
      (l.map fun x => if x.1 = a then (a, { c.val with completed := true }) else x) removed := by
  have hmine := h.owned.mine t a ht
  obtain ⟨n, hn⟩ := h.list.seg.cell hmine
  obtain rfl := Option.some.inj (hc.symm.trans hn)
  -- the node at `a` is the one of thread `t`
  have haddr : ∀ x ∈ l, x.1 = a ↔ x.2.thread = t := by
    intro x hx
    constructor
    · intro heq
      rw [List.inj_on_of_nodup_map h.list.nodup hx hmine heq]
    · intro heq
      rw [List.inj_on_of_nodup_map h.threads_nodup hx hmine heq]
  have hident : (l.map fun x => if x.1 = a then (a, { thread := t, completed := true }) else x).map
      ident = l.map ident := by
    rw [List.map_map]
    refine List.map_congr_left fun x hx => ?_
    by_cases hxa : x.1 = a
    · rw [Function.comp_apply, if_pos hxa, ident, ident, hxa, (haddr x hx).mp hxa]
    · rw [Function.comp_apply, if_neg hxa]
  constructor
  case list => exact h.list.setVal hc _
  case fresh =>
    rw [registered_snoc]
    exact h.fresh
  case bound =>
    intro b hb
    have hba : b ≠ a := by
      rintro rfl
      cases hc.symm.trans (h.bound b hb)
    exact (Function.update_of_ne hba ..).trans (h.bound b hb)
  case once =>
    rw [registered_snoc]
    exact h.once
  case owned =>
    have hnew : ∀ x ∈ l.map fun x => if x.1 = a then (a, ({ thread := t, completed := true } :
        ThreadNode τ)) else x, x.2.thread = t → x.2.completed = true := by
      intro x hx hxt
      obtain ⟨y, hy, rfl⟩ := List.mem_map.mp hx
      by_cases hya : y.1 = a
      · rw [if_pos hya]
      · rw [if_neg hya] at hxt
        exact absurd ((haddr y hy).mpr hxt) hya
    apply h.owned.update
    case hreg =>
      intro r hr _
      rwa [registered_snoc] at hr
    case hphase => simp
    case hothers =>
      intro x hxt
      rw [List.mem_map]
      constructor
      · rintro ⟨y, hy, rfl⟩
        by_cases hya : y.1 = a
        · rw [if_pos hya] at hxt
          exact absurd rfl hxt
        · rwa [if_neg hya]
      · intro hx
        exact ⟨x, hx, if_neg fun hxa => hxt ((haddr x hx).mp hxa)⟩
    case hserving =>
      intro x hx hxt hcompl
      rw [hnew x hx hxt] at hcompl
      cases hcompl
    case hpast => exact fun _ _ _ _ => .inl rfl
    case hmine => simp
    case hmark => simp [Phase.isPast]
    case hne => exact fun u hut heq => hut (Action.mark.inj heq).symm
  case order =>
    rw [registered_snoc]
    exact hident ▸ h.order
  case all =>
    rw [registered_snoc]
    exact hident ▸ h.all
  case disposals => exact h.disposals

/-- Nodes leave the list. -/
theorem Intact.dispose {gone stay : List (Nat × ThreadNode τ)} (h : Intact evs s l removed)
    (hreg : registered (evs ++ [e]) = registered evs) (he : ∀ u, e ≠ .mark u)
    (hd : Disposed s gone s') (hl : IsList s'.nodes s'.head stay) (hperm : (stay ++ gone).Perm l)
    (hstay : stay.Sublist l) : Intact (evs ++ [e]) s' stay (removed ++ gone.map ident) where
  list := hl
  fresh := by rw [hreg, hd.fresh, h.fresh]
  bound a ha := hd.free a (h.bound a (hd.fresh ▸ ha))
  once := hreg ▸ h.once
  owned := h.owned.dispose hreg he hd hperm h.threads_nodup
  order := hreg ▸ (hstay.map ident).trans h.order
  all := by
    have hstep : (stay.map ident ++ (gone.map ident ++ removed)).Perm (l.map ident ++ removed) := by
      rw [← List.append_assoc, ← List.map_append]
      exact (hperm.map ident).append_right _
    rw [hreg]
    exact ((List.perm_append_comm.append_left _).trans hstep).trans h.all
  disposals := by rw [hd.disposals, h.disposals, List.flatMap_append]

/-- `remove_completed_threads` ends with enough fuel: the marked nodes leave the list, and the
others keep their order. -/
theorem Intact.remove_ends (h : Intact evs s l removed) {fuel : Nat} (hfuel : l.length < fuel) :
    Ends s (l.filter fun x => x.2.completed) (l.filter fun x => !x.2.completed)
      (removeCompletedThreads fuel s) := by
  have hl : IsList s.nodes s.head ([] ++ l) := h.list
  have hends := removeLoop_ends hl (fun _ hx => (h.owned.listed hx).2) h.threads_nodup hfuel
  rw [← h.list.seg.start] at hends
  exact hends

/-- `cleanup_thread_list` ends with enough fuel: all nodes leave the list. -/
theorem Intact.cleanup_ends (h : Intact evs s l removed) {fuel : Nat} (hfuel : l.length < fuel) :
    Ends s l [] (cleanupThreadList fuel s) :=
  cleanupLoop_ends h.list (fun _ hx => (h.owned.listed hx).2) h.threads_nodup hfuel

omit [DecidableEq τ] in
theorem Intact.length_lt (h : Intact evs s l removed) : l.length < s.fresh + 1 := by
  have hle := h.order.length_le
  rw [List.length_map] at hle
  rw [h.fresh]
  exact Nat.lt_succ_of_le hle

/-- How a step ends that does not fault or run forever. -/
def Proceeds (evs : List (Action τ)) (e : Action τ) : Except Stop (Unit × Registry τ) → Prop
  | .ok (_, s') => ∃ l removed, Intact (evs ++ [e]) s' l removed
  | .error why => why = .disabled ∨ why = .blocked

/-- A loop that ends leaves the rest of the list intact. -/
theorem Intact.proceeds {e : Action τ} {gone stay : List (Nat × ThreadNode τ)}
    {r : Except Stop (Unit × Registry τ)} (h : Intact evs s l removed) (hends : Ends s gone stay r)
    (hreg : registered (evs ++ [e]) = registered evs) (hmark : ∀ u, e ≠ .mark u)
    (hperm : (stay ++ gone).Perm l) (hstay : stay.Sublist l) : Proceeds evs e r := by
  cases r with
  | ok p => exact ⟨_, _, h.dispose hreg hmark hends.1 hends.2 hperm hstay⟩
  | error why => exact .inr hends.1

/-- Every step keeps the list intact, or it cannot be made yet. -/
theorem Intact.exec (h : Intact evs s l removed) (e : Action τ) :
    Proceeds evs e (exec e s) := by
  cases e with
  | add t ok =>
    rw [exec_add]
    split
    · rename_i ht
      cases ok with
      | true => exact ⟨_, _, h.add ht⟩
      | false =>
        refine ⟨_, _, h.setPhase t (.serving none) (registered_snoc ..) ?_ ?_ ?_
          (h.owned.mark_iff (by simp) (by rw [ht]; rfl)) (by simp)⟩
        · simp [ht]
        · simp
        · intro x hx heq
          exact absurd (heq ▸ ht) (h.owned.listed hx).1
    · exact .inl rfl
  | mark t =>
    cases ht : s.threads t with
    | serving n =>
      cases n with
      | some a =>
        obtain ⟨n, hn⟩ := h.list.seg.cell (h.owned.mine t a ht)
        rw [exec_mark_node ht hn]
        exact ⟨_, _, h.mark ht hn⟩
      | none =>
        rw [exec_mark_null ht]
        refine ⟨_, _, h.setPhase t _ (registered_snoc ..) ?_ ?_ (fun _ _ _ => .inl rfl) ?_ ?_⟩
        · simp [ht]
        · simp
        · simp [Phase.isPast]
        · exact fun u hut heq => hut (Action.mark.inj heq).symm
    | _ =>
      rw [exec_mark_disabled (by simp [ht])]
      exact .inl rfl
  | finish t =>
    rw [exec_finish]
    split
    · rename_i ht
      refine ⟨_, _, h.setPhase t _ (registered_snoc ..) ?_ ?_ (fun _ _ _ => .inr rfl)
        (h.owned.mark_iff (by simp) (by rw [ht]; rfl)) (by simp)⟩
      · simp [ht]
      · simp
    · exact .inl rfl
  | remove =>
    refine h.proceeds (h.remove_ends h.length_lt) (registered_snoc ..) (by simp) ?_
      List.filter_sublist
    exact List.perm_append_comm.trans (List.filter_append_perm _ l)
  | cleanup =>
    exact h.proceeds (h.cleanup_ends h.length_lt) (registered_snoc ..) (by simp)
      (List.Perm.refl l) (List.nil_sublist l)

/-- In every run the list is intact. -/
theorem intact_of_run (hrun : lts.run start evs = some s) :
    ∃ l removed, Intact evs s l removed := by
  refine Lts.run_history (I := fun evs s => ∃ l removed, Intact evs s l removed)
    ⟨[], [], intact_start⟩ ?_ hrun
  rintro evs s e s' - ⟨l, removed, h⟩ hs
  have hexec := h.exec e
  simp only [lts] at hs
  split at hs
  · rename_i heq
    cases hs
    rwa [heq] at hexec
  · cases hs

/-! ## What the invariant gives -/

omit [DecidableEq τ] in
/-- No address is given out twice. -/
theorem registered_fst (evs : List (Action τ)) :
    (registered evs).map Prod.fst = (List.range (registered evs).length).reverse := by
  induction evs using List.reverseRecOn with
  | nil => rfl
  | append_singleton evs e ih =>
    rw [registered_snoc]
    split
    · rw [List.map_cons, ih, List.length_cons, List.range_succ, List.reverse_append]
      rfl
    · exact ih

omit [DecidableEq τ] in
/-- No thread is joined twice and no node is freed twice. -/
theorem Intact.disposals_nodup (h : Intact evs s l removed) : s.disposals.Nodup := by
  have hpart : ∀ {γ : Type} (f : Nat × τ → γ), ((registered evs).map f).Nodup →
      (removed.map f).Nodup := by
    intro γ f hf
    have hnodup := (h.all.map f).nodup_iff.mpr hf
    rw [List.map_append] at hnodup
    exact (List.nodup_append.mp hnodup).2.1
  have hfst : (removed.map Prod.fst).Nodup := by
    apply hpart
    rw [registered_fst]
    exact List.nodup_reverse.mpr List.nodup_range
  have hsnd := hpart Prod.snd h.once
  rw [h.disposals, List.nodup_flatMap]
  refine ⟨fun r _ => by simp [disposal], ?_⟩
  have hboth := (List.pairwise_map.mp hfst).and (List.pairwise_map.mp hsnd)
  refine hboth.imp fun {r q} hne => ?_
  simp [Function.onFun, disposal, hne.1.symm, hne.2.symm]

end

end Registry

/-- The thread list of a run: `l` are the nodes from `thread_list_head` to null, and `removed` the
nodes that have left the list. -/
structure ThreadList {τ : Type} (evs : List (Registry.Action τ)) (s : Registry τ)
    (l : List (Nat × ThreadNode τ)) (removed : List (Nat × τ)) : Prop where
  list : Seg s.nodes s.head l none
  acyclic : (l.map Prod.fst).Nodup
  /-- Nothing else is allocated. -/
  allocated : ∀ a, (s.nodes a).isSome ↔ a ∈ l.map Prod.fst
  /-- The list has the nodes registered and not yet removed. -/
  exact : (l.map Registry.ident ++ removed).Perm (Registry.registered evs)
  newestFirst : (l.map Registry.ident).Sublist (Registry.registered evs)
  completed : ∀ x ∈ l, x.2.completed = true ↔ .mark x.2.thread ∈ evs
  /-- Each node that was removed was freed after its thread was joined, and there are no other
  calls. -/
  disposals : s.disposals = removed.flatMap Registry.disposal
  once : s.disposals.Nodup
  /-- `my_node` of a thread that has yet to mark it. -/
  myNode : ∀ t a, s.threads t = .serving (some a) → (a, { thread := t, completed := false }) ∈ l
  length_le : l.length ≤ s.fresh

theorem Registry.Intact.threadList {τ : Type} {evs : List (Registry.Action τ)} {s : Registry τ}
    {l : List (Nat × ThreadNode τ)} {removed : List (Nat × τ)}
    (h : Registry.Intact evs s l removed) : ThreadList evs s l removed where
  list := h.list.seg
  acyclic := h.list.nodup
  allocated a := by
    constructor
    · intro ha
      obtain ⟨c, hc⟩ := Option.isSome_iff_exists.mp ha
      exact h.list.live a c hc
    · intro ha
      obtain ⟨⟨a, v⟩, hx, rfl⟩ := List.mem_map.mp ha
      obtain ⟨n, hn⟩ := h.list.seg.cell hx
      exact Option.isSome_iff_exists.mpr ⟨_, hn⟩
  exact := h.all
  newestFirst := h.order
  completed x hx := by
    rw [h.owned.marked]
    cases hc : x.2.completed with
    | false => simp [h.owned.serving x hx hc, Phase.isPast]
    | true =>
      rcases h.owned.past x hx hc with hp | hp
      · simp [hp, Phase.isPast]
      · simp [hp, Phase.isPast]
  disposals := h.disposals
  once := h.disposals_nodup
  myNode := h.owned.mine
  length_le := Nat.le_of_lt_succ h.length_lt

/-- In every interleaving of registrations, markings, returns, `remove_completed_threads` and
`cleanup_thread_list`, by any number of threads: the list is the list of the nodes registered and
not yet removed, newest first; no step follows a pointer to a freed node or joins a thread twice;
with enough fuel `remove_completed_threads` removes exactly the marked nodes and
`cleanup_thread_list` all nodes, each freed after its thread was joined, or waits for a thread that
has not finished. -/
theorem threadList_intact {τ : Type} [DecidableEq τ] {evs : List (Registry.Action τ)}
    {s : Registry τ} (hrun : Registry.lts.run .start evs = some s) :
    ∃ l removed, ThreadList evs s l removed ∧
      (∀ e why, Registry.exec e s = .error why → why = .disabled ∨ why = .blocked) ∧
      ∀ fuel, l.length < fuel →
        Registry.Ends s (l.filter fun x => x.2.completed) (l.filter fun x => !x.2.completed)
          (Registry.removeCompletedThreads fuel s) ∧
        Registry.Ends s l [] (Registry.cleanupThreadList fuel s) := by
  obtain ⟨l, removed, h⟩ := Registry.intact_of_run hrun
  refine ⟨l, removed, h.threadList, fun e why herr => ?_, fun fuel hfuel => ?_⟩
  · have hexec := h.exec e
    rw [herr] at hexec
    exact hexec
  · exact ⟨h.remove_ends hfuel, h.cleanup_ends hfuel⟩

/-- Three clients, of which the two that came last leave: the head of the list and the node behind
it are removed. -/
def twoLeave : List (Registry.Action Nat) :=
  [.add 0 true, .add 1 true, .add 2 true, .mark 2, .mark 1, .finish 1, .finish 2, .remove]

theorem threadList_intact_twoLeave : ∃ s, Registry.lts.run .start twoLeave = some s ∧
    s.disposals = [.join 2, .free 2, .join 1, .free 1] ∧
    ∃ l removed, ThreadList twoLeave s l removed := by
  have hrun : (Registry.lts.run .start twoLeave).map Registry.disposals =
      some [.join 2, .free 2, .join 1, .free 1] := by decide
  obtain ⟨s, hs, hd⟩ := Option.map_eq_some_iff.mp hrun
  obtain ⟨l, removed, h, -⟩ := threadList_intact hs
  exact ⟨s, hs, hd, l, removed, h⟩

end Aesd
