/-
# HighLoad.Ws.Bindings — the registry and the broker's bindings

The decision to bind or unbind is taken under the manager's lock, its effect at the broker comes
later. `bindings_agree` says that the two agree whenever no call is running, in every run in which
no callback takes effect behind a later one of the opposite kind; `crossedTabs_unbinds` is the run in
which one does. On the error path, `bind_retried_iff` says that a bind which raised is never
attempted again: the property holds of a run exactly when none raises.
-/
import HighLoad.Ws.ConnectionManager

namespace HighLoad.Ws

namespace System

variable {s s' : System}

/-! ## What a step does to the callbacks -/

/-- Some call awaits the callback. -/
def Awaited (s : System) (cb : Callback) : Prop := ∃ broken, .callback cb broken ∈ s.tasks

/-- The callback of decision `k` about `u` has not taken effect. -/
def Pending (s : System) (u : Uuid) (k : Nat) : Prop :=
  ∃ cb, s.Awaited cb ∧ cb.userId = u ∧ cb.seq = k ∧ cb.applied = false

/-- A step without a decision and without an effect. -/
structure Idle (s s' : System) : Prop where
  decisions : s'.decisions = s.decisions
  bound : s'.bound = s.bound
  effects : s'.effects = s.effects
  awaited : ∀ cb, s'.Awaited cb → s.Awaited cb
  kept : ∀ cb, s.Awaited cb → cb.applied = false → s'.Awaited cb

/-- A locked section that decides about `u`, and awaits the callback. -/
structure Decides (s s' : System) (u : Uuid) (first : Bool) : Prop where
  decisions : s'.decisions = s.decisions ++ [⟨u, first⟩]
  bound : s'.bound = s.bound
  effects : s'.effects = s.effects
  awaited : ∀ cb, s'.Awaited cb → s.Awaited cb ∨ cb = s.nextCallback u first
  kept : ∀ cb, s.Awaited cb → s'.Awaited cb
  next : s'.Awaited (s.nextCallback u first)

/-- A callback takes effect at the broker. -/
structure TakesEffect (s s' : System) (cb : Callback) : Prop where
  unapplied : cb.applied = false
  was : s.Awaited cb
  decisions : s'.decisions = s.decisions
  bound : s'.bound = Function.update s.bound cb.userId cb.binds
  effects : s'.effects = s.effects ++ [{ cb with applied := true }]
  awaited : ∀ cb', s'.Awaited cb' → s.Awaited cb' ∨ cb' = { cb with applied := true }
  kept : ∀ cb', s.Awaited cb' → cb' ≠ cb → s'.Awaited cb'

/-- The tasks after task `i` has taken a step. -/
def replaced (tasks : List Task) (i : Nat) (next : Option Task) : List Task :=
  tasks.take i ++ next.toList ++ tasks.drop (i + 1)

theorem mem_replaced {tasks : List Task} {i : Nat} {next : Option Task} {t : Task} :
    t ∈ replaced tasks i next ↔ t ∈ tasks.take i ∨ next = some t ∨ t ∈ tasks.drop (i + 1) := by
  simp [replaced]

theorem mem_of_mem_replaced {tasks : List Task} {i : Nat} {next : Option Task} {t : Task}
    (h : t ∈ replaced tasks i next) : t ∈ tasks ∨ next = some t := by
  rcases mem_replaced.mp h with h | h | h
  · exact Or.inl (List.mem_of_mem_take h)
  · exact Or.inr h
  · exact Or.inl (List.mem_of_mem_drop h)

theorem mem_replaced_of_mem {tasks : List Task} {i : Nat} (next : Option Task) {task t : Task}
    (hi : tasks[i]? = some task) (h : t ∈ tasks) : t = task ∨ t ∈ replaced tasks i next := by
  obtain ⟨hlt, rfl⟩ := List.getElem?_eq_some_iff.mp hi
  rw [← List.take_append_drop i tasks, List.drop_eq_getElem_cons hlt] at h
  rcases List.mem_append.mp h with h | h
  · exact Or.inr (mem_replaced.mpr (Or.inl h))
  · rcases List.mem_cons.mp h with h | h
    · exact Or.inl h
    · exact Or.inr (mem_replaced.mpr (Or.inr (Or.inr h)))

/-- A step of a task that awaits nothing and decides nothing. -/
theorem idle_replaced {i : Nat} {task : Task} {next : Option Task}
    (hi : s.tasks[i]? = some task) (htask : ∀ cb broken, task = .callback cb broken → cb.applied = true)
    (hnext : ∀ cb broken, next ≠ some (.callback cb broken))
    (hdec : s'.decisions = s.decisions) (hbound : s'.bound = s.bound)
    (heff : s'.effects = s.effects) (htasks : s'.tasks = replaced s.tasks i next) :
    s.Idle s' where
  decisions := hdec
  bound := hbound
  effects := heff
  awaited := by
    rintro cb ⟨broken, hmem⟩
    rw [htasks] at hmem
    rcases mem_of_mem_replaced hmem with hmem | hmem
    · exact ⟨broken, hmem⟩
    · exact absurd hmem (hnext cb broken)
  kept := by
    rintro cb ⟨broken, hmem⟩ hcb
    rcases mem_replaced_of_mem next hi hmem with heq | hmem
    · have happlied := htask cb broken heq.symm
      rw [hcb] at happlied
      exact absurd happlied (by decide)
    · exact ⟨broken, by rw [htasks]; exact hmem⟩

/-- A new call, whose locked section decides when `d` says so. -/
theorem idle_or_decides_of_call {d : Bool} {u : Uuid} {first : Bool} {broken : List WebSocket}
    (hdec : s'.decisions = if d then s.decisions ++ [⟨u, first⟩] else s.decisions)
    (hbound : s'.bound = s.bound) (heff : s'.effects = s.effects)
    (htasks : s'.tasks
      = s.tasks ++ if d then [.callback (s.nextCallback u first) broken] else []) :
    s.Idle s' ∨ s.Decides s' u first := by
  cases d with
  | false =>
      have htasks' : s'.tasks = s.tasks := by simpa using htasks
      refine Or.inl ⟨by simpa using hdec, hbound, heff, ?_, ?_⟩
      · rintro cb ⟨b, hmem⟩
        exact ⟨b, htasks' ▸ hmem⟩
      · rintro cb ⟨b, hmem⟩ -
        exact ⟨b, htasks' ▸ hmem⟩
  | true =>
      simp only [if_true] at hdec htasks
      refine Or.inr ⟨hdec, hbound, heff, ?_, ?_, ?_⟩
      · rintro cb ⟨b, hmem⟩
        rw [htasks] at hmem
        rcases List.mem_append.mp hmem with hmem | hmem
        · exact Or.inl ⟨b, hmem⟩
        · exact Or.inr (Task.callback.inj (List.mem_singleton.mp hmem)).1
      · rintro cb ⟨b, hmem⟩
        exact ⟨b, by rw [htasks]; exact List.mem_append_left _ hmem⟩
      · exact ⟨broken, by rw [htasks]; exact List.mem_append_right _ List.mem_cons_self⟩

/-- A snapshot joins the tasks. -/
theorem idle_push {u : Uuid} {sockets : List WebSocket} (h : step (.push u sockets) s = some s') :
    s.Idle s' := by
  simp only [step] at h
  by_cases hsnap : sockets.Nodup ∧ sockets.toFinset = s.conns.sockets u
  · rw [if_pos hsnap] at h
    obtain rfl := Option.some.inj h
    refine ⟨rfl, rfl, rfl, ?_, ?_⟩
    · rintro cb ⟨b, hmem⟩
      rcases List.mem_append.mp hmem with hmem | hmem
      · exact ⟨b, hmem⟩
      · split_ifs at hmem
        · exact absurd hmem List.not_mem_nil
        · exact absurd (List.mem_singleton.mp hmem) (by simp)
    · rintro cb ⟨b, hmem⟩ -
      exact ⟨b, List.mem_append_left _ hmem⟩
  · rw [if_neg hsnap] at h
    exact absurd h (by simp)

/-- A task that drops its sockets decides. -/
theorem decides_replaced {i : Nat} {task : Task} {u : Uuid} {first : Bool} {broken : List WebSocket}
    (hi : s.tasks[i]? = some task) (htask : ∀ cb b, task ≠ .callback cb b)
    (hdec : s'.decisions = s.decisions ++ [⟨u, first⟩]) (hbound : s'.bound = s.bound)
    (heff : s'.effects = s.effects)
    (htasks : s'.tasks
      = replaced s.tasks i (some (.callback (s.nextCallback u first) broken))) :
    s.Decides s' u first where
  decisions := hdec
  bound := hbound
  effects := heff
  awaited := by
    rintro cb ⟨b, hmem⟩
    rw [htasks] at hmem
    rcases mem_of_mem_replaced hmem with hmem | hmem
    · exact Or.inl ⟨b, hmem⟩
    · exact Or.inr (Task.callback.inj (Option.some.inj hmem)).1.symm
  kept := by
    rintro cb ⟨b, hmem⟩
    rcases mem_replaced_of_mem (some (.callback (s.nextCallback u first) broken)) hi hmem with
      heq | hmem
    · exact absurd heq.symm (htask cb b)
    · exact ⟨b, by rw [htasks]; exact hmem⟩
  next := ⟨broken, by rw [htasks]; exact mem_replaced.mpr (Or.inr (Or.inl rfl))⟩

/-- The task that awaits the callback lets it take effect. -/
theorem takesEffect_replaced {i : Nat} {cb : Callback} {broken : List WebSocket}
    (hi : s.tasks[i]? = some (.callback cb broken)) (hcb : cb.applied = false)
    (hdec : s'.decisions = s.decisions)
    (hbound : s'.bound = Function.update s.bound cb.userId cb.binds)
    (heff : s'.effects = s.effects ++ [{ cb with applied := true }])
    (htasks : s'.tasks = replaced s.tasks i (some (.callback { cb with applied := true } broken))) :
    s.TakesEffect s' cb where
  unapplied := hcb
  was := ⟨broken, List.mem_of_getElem? hi⟩
  decisions := hdec
  bound := hbound
  effects := heff
  awaited := by
    rintro cb' ⟨b, hmem⟩
    rw [htasks] at hmem
    rcases mem_of_mem_replaced hmem with hmem | hmem
    · exact Or.inl ⟨b, hmem⟩
    · exact Or.inr (Task.callback.inj (Option.some.inj hmem)).1.symm
  kept := by
    rintro cb' ⟨b, hmem⟩ hne
    rcases mem_replaced_of_mem (some (.callback { cb with applied := true } broken)) hi hmem with
      heq | hmem
    · exact absurd (Task.callback.inj heq).1 hne
    · exact ⟨b, by rw [htasks]; exact hmem⟩

/-- **What one step can do to decisions, callbacks and broker.** -/
theorem step_cases {a : Action} (h : step a s = some s') :
    s.Idle s' ∨ (∃ u first, s.Decides s' u first) ∨
      ∃ i sent cb broken, a = .resume i sent ∧ s.tasks[i]? = some (.callback cb broken) ∧
        s.TakesEffect s' cb := by
  cases a with
  | connect u ws =>
      obtain rfl := Option.some.inj h
      refine Or.imp_right (fun hdecides => Or.inl ⟨u, true, hdecides⟩) ?_
      exact idle_or_decides_of_call rfl rfl rfl rfl
  | disconnect u ws =>
      obtain rfl := Option.some.inj h
      have htasks : s.tasks ++ (s.disconnectWith u ws []).1.toList = s.tasks ++
          (if (s.conns.disconnect u ws).1 then [.callback (s.nextCallback u false) []] else []) := by
        cases hd : (s.conns.disconnect u ws).1 <;> simp [disconnectWith, hd]
      refine Or.imp_right (fun hdecides => Or.inl ⟨u, false, hdecides⟩) ?_
      exact idle_or_decides_of_call rfl rfl rfl htasks
  | push u sockets => exact Or.inl (idle_push h)
  | resume i sent =>
      simp only [step] at h
      cases htask : s.tasks[i]? with
      | none =>
          rw [htask] at h
          exact absurd h (by simp)
      | some task =>
          rw [htask] at h
          obtain rfl := Option.some.inj h
          cases task with
          | callback cb broken =>
              by_cases hcb : cb.applied = true
              · refine Or.inl (idle_replaced htask ?_ ?_ ?_ ?_ ?_ rfl)
                · intro cb' broken' heq
                  rw [← (Task.callback.inj heq).1]
                  exact hcb
                · intro cb' broken'
                  simp [advance, hcb]
                all_goals simp [advance, hcb]
              · have hadvance : s.advance sent (.callback cb broken)
                    = (some (.callback { cb with applied := true } broken), s.carriedOut cb) := by
                  rw [advance, if_neg hcb]
                rw [hadvance]
                exact Or.inr (Or.inr ⟨i, sent, cb, broken, rfl, htask,
                  takesEffect_replaced htask (by simpa using hcb) rfl rfl rfl rfl⟩)
          | sending u rest broken =>
              refine Or.inl (idle_replaced htask (by simp) ?_ ?_ ?_ ?_ rfl)
              all_goals cases rest <;> simp [advance]
          | dropping u broken =>
              cases broken with
              | nil => exact Or.inl (idle_replaced htask (by simp) (by simp [advance]) rfl rfl rfl rfl)
              | cons ws broken =>
                  cases hd : (s.conns.disconnect u ws).1 with
                  | false =>
                      refine Or.inl (idle_replaced htask (by simp) ?_ ?_ rfl rfl rfl)
                      · simp [advance, disconnectWith, hd]
                      · simp [advance, disconnectWith, unregistered, hd]
                  | true =>
                      have hnext : (s.advance sent (.dropping u (ws :: broken))).1
                          = some (.callback (s.nextCallback u false) broken) := by
                        simp [advance, disconnectWith, hd]
                      have hdec : (s.advance sent (.dropping u (ws :: broken))).2.decisions
                          = s.decisions ++ [⟨u, false⟩] := by
                        simp [advance, disconnectWith, unregistered, hd]
                      rw [hnext]
                      exact Or.inr (Or.inl ⟨u, false,
                        decides_replaced htask (by simp) hdec rfl rfl rfl⟩)

/-- The last decision about a user is still to take effect, or the broker is as it says; before any
decision there is no binding. Callbacks and effects bind or unbind as their number says. -/
structure Bound (s : System) : Prop where
  awaited : ∀ cb, s.Awaited cb →
    cb.seq < (s.decisionsOf cb.userId).length ∧ cb.binds = decide (cb.seq % 2 = 0)
  effects : ∀ e ∈ s.effects, e.binds = decide (e.seq % 2 = 0)
  undecided : ∀ u, s.decisionsOf u = [] → s.bound u = false
  last : ∀ u k, (s.decisionsOf u).length = k + 1 → s.Pending u k ∨
    ((∃ e ∈ s.effects, e.userId = u ∧ e.seq = k) ∧ s.bound u = decide (k % 2 = 0))

theorem bound_start : start.Bound where
  awaited := by
    rintro cb ⟨broken, hmem⟩
    exact absurd hmem List.not_mem_nil
  effects := fun e he => absurd he List.not_mem_nil
  undecided := fun _ _ => rfl
  last := fun u k h => absurd h (by simp [start, decisionsOf])

theorem decisionsOf_of_eq (h : s'.decisions = s.decisions) (u : Uuid) :
    s'.decisionsOf u = s.decisionsOf u := by
  simp only [decisionsOf, h]

theorem Bound.idle (h : s.Bound) (hs : s.Idle s') : s'.Bound where
  awaited := fun cb hcb => by
    rw [decisionsOf_of_eq hs.decisions]
    exact h.awaited cb (hs.awaited cb hcb)
  effects := by rw [hs.effects]; exact h.effects
  undecided := fun u hu => by
    rw [hs.bound]
    exact h.undecided u (by rw [← decisionsOf_of_eq hs.decisions]; exact hu)
  last := by
    intro u k hk
    rw [decisionsOf_of_eq hs.decisions] at hk
    rw [hs.effects, hs.bound]
    rcases h.last u k hk with ⟨cb, hcb, huser, hseq, happlied⟩ | hdone
    · exact Or.inl ⟨cb, hs.kept cb hcb happlied, huser, hseq, happlied⟩
    · exact Or.inr hdone

theorem Decides.decisionsOf {u : Uuid} {first : Bool} (hs : s.Decides s' u first) (v : Uuid) :
    s'.decisionsOf v = s.decisionsOf v ++ if u = v then [first] else [] := by
  rw [← decisionsOf_append s ⟨u, first⟩ v]
  simp only [System.decisionsOf, hs.decisions]

/-- A new decision is the next of the alternating sequence, and its callback is pending. -/
theorem Bound.decides (h : s.Bound) (hc : s'.Consistent) {u : Uuid} {first : Bool}
    (hs : s.Decides s' u first) : s'.Bound where
  awaited := by
    intro cb hcb
    rcases hs.awaited cb hcb with hold | rfl
    · obtain ⟨hlt, hbinds⟩ := h.awaited cb hold
      refine ⟨?_, hbinds⟩
      rw [hs.decisionsOf, List.length_append]
      omega
    · have hu : s'.decisionsOf u = s.decisionsOf u ++ [first] := by
        rw [hs.decisionsOf, if_pos rfl]
      refine ⟨?_, ?_⟩
      · show (s.decisionsOf u).length < (s'.decisionsOf u).length
        rw [hu, List.length_append, List.length_singleton]
        omega
      · have halt := hc.alternate u
        rw [hu, List.length_append, List.length_singleton, alternating_succ] at halt
        have hlast := (List.append_inj' halt rfl).2
        exact (List.cons.inj hlast).1
  effects := by rw [hs.effects]; exact h.effects
  undecided := by
    intro v hv
    rw [hs.decisionsOf, List.append_eq_nil_iff] at hv
    rw [hs.bound]
    exact h.undecided v hv.1
  last := by
    intro v k hk
    rw [hs.effects, hs.bound]
    rw [hs.decisionsOf] at hk
    by_cases hv : u = v
    · subst hv
      rw [if_pos rfl, List.length_append, List.length_singleton] at hk
      exact Or.inl ⟨_, hs.next, rfl, by simp only [nextCallback]; omega, rfl⟩
    · rw [if_neg hv, List.append_nil] at hk
      rcases h.last v k hk with ⟨cb, hcb, hrest⟩ | hdone
      · exact Or.inl ⟨cb, hs.kept cb hcb, hrest⟩
      · exact Or.inr hdone

/-- A callback takes effect behind a later one of the same user and of the opposite kind. -/
def Crosses (s : System) (a : Action) : Prop :=
  ∃ i sent cb broken, a = .resume i sent ∧ s.tasks[i]? = some (.callback cb broken) ∧
    cb.applied = false ∧ ∃ e ∈ s.effects, e.userId = cb.userId ∧ cb.seq < e.seq ∧
      e.binds ≠ cb.binds

instance decidableCrosses (s : System) : (a : Action) → Decidable (s.Crosses a)
  | .resume i sent =>
      match htask : s.tasks[i]? with
      | some (.callback cb broken) =>
          decidable_of_iff (cb.applied = false ∧ ∃ e ∈ s.effects, e.userId = cb.userId ∧
              cb.seq < e.seq ∧ e.binds ≠ cb.binds)
            ⟨fun h => ⟨i, sent, cb, broken, rfl, htask, h⟩, by
              rintro ⟨i', sent', cb', broken', heq, htask', h⟩
              obtain ⟨rfl, rfl⟩ := Action.resume.inj heq
              obtain ⟨rfl, rfl⟩ := Task.callback.inj (Option.some.inj (htask.symm.trans htask'))
              exact h⟩
      | some (.sending u rest broken) => isFalse (by
          rintro ⟨i', sent', cb', broken', heq, htask', -⟩
          obtain ⟨rfl, rfl⟩ := Action.resume.inj heq
          cases htask.symm.trans htask')
      | some (.dropping u broken) => isFalse (by
          rintro ⟨i', sent', cb', broken', heq, htask', -⟩
          obtain ⟨rfl, rfl⟩ := Action.resume.inj heq
          cases htask.symm.trans htask')
      | none => isFalse (by
          rintro ⟨i', sent', cb', broken', heq, htask', -⟩
          obtain ⟨rfl, rfl⟩ := Action.resume.inj heq
          cases htask.symm.trans htask')
  | .connect u ws => isFalse (by rintro ⟨i, sent, cb, broken, heq, -⟩; cases heq)
  | .disconnect u ws => isFalse (by rintro ⟨i, sent, cb, broken, heq, -⟩; cases heq)
  | .push u sockets => isFalse (by rintro ⟨i, sent, cb, broken, heq, -⟩; cases heq)

/-- An effect that does not cross a later one leaves the broker as the last decision says, unless
that decision is still to take effect. -/
theorem Bound.takesEffect (h : s.Bound) {cb : Callback} (hs : s.TakesEffect s' cb)
    (hcross : ∀ e ∈ s.effects, e.userId = cb.userId → cb.seq < e.seq → e.binds = cb.binds) :
    s'.Bound where
  awaited := by
    intro cb' hcb'
    rw [decisionsOf_of_eq hs.decisions]
    rcases hs.awaited cb' hcb' with hold | rfl
    · exact h.awaited cb' hold
    · exact h.awaited cb hs.was
  effects := by
    intro e he
    rw [hs.effects] at he
    rcases List.mem_append.mp he with he | he
    · exact h.effects e he
    · rw [List.mem_singleton.mp he]
      exact (h.awaited cb hs.was).2
  undecided := by
    intro u hu
    rw [decisionsOf_of_eq hs.decisions] at hu
    have hne : u ≠ cb.userId := by
      rintro rfl
      have hlt := (h.awaited cb hs.was).1
      rw [hu] at hlt
      exact absurd hlt (Nat.not_lt_zero _)
    rw [hs.bound, Function.update_of_ne hne]
    exact h.undecided u hu
  last := by
    intro u k hk
    rw [decisionsOf_of_eq hs.decisions] at hk
    rw [hs.effects, hs.bound]
    obtain ⟨hlt, hbinds⟩ := h.awaited cb hs.was
    by_cases hu : u = cb.userId
    · subst hu
      rw [Function.update_self]
      by_cases hseq : cb.seq = k
      · -- the callback of the last decision
        refine Or.inr ⟨⟨{ cb with applied := true }, ?_, rfl, hseq⟩, ?_⟩
        · exact List.mem_append_right _ List.mem_cons_self
        · rw [hbinds, hseq]
      · rcases h.last _ k hk with ⟨cb', hcb', huser, hseq', happlied⟩ | ⟨⟨e, he, huser, hseq'⟩, -⟩
        · have hne : cb' ≠ cb := by
            rintro rfl
            exact hseq hseq'
          exact Or.inl ⟨cb', hs.kept cb' hcb' hne, huser, hseq', happlied⟩
        · refine Or.inr ⟨⟨e, List.mem_append_left _ he, huser, hseq'⟩, ?_⟩
          have hlt' : cb.seq < e.seq := by omega
          rw [← hcross e he huser hlt', h.effects e he, hseq']
    · rw [Function.update_of_ne hu]
      rcases h.last u k hk with ⟨cb', hcb', huser, hrest⟩ | ⟨⟨e, he, hrest⟩, hdone⟩
      · have hne : cb' ≠ cb := by
          rintro rfl
          exact hu huser.symm
        exact Or.inl ⟨cb', hs.kept cb' hcb' hne, huser, hrest⟩
      · exact Or.inr ⟨⟨e, List.mem_append_left _ he, hrest⟩, hdone⟩

/-- The run lemma: while no effect crosses a later one, the broker follows the decisions. -/
theorem bound_of_exec {acts : List Action} (h : exec step acts start = some s)
    (hcross : ∀ pre a s₁, pre ++ [a] <+: acts → exec step pre start = some s₁ → ¬ s₁.Crosses a) :
    s.Bound := by
  induction acts using List.reverseRecOn generalizing s with
  | nil =>
      obtain rfl := Option.some.inj h
      exact bound_start
  | append_singleton acts a ih =>
      obtain ⟨t, ht, hlast⟩ := exec_append_eq_some.mp h
      have hinv := ih ht fun pre b s₁ hpre => hcross pre b s₁ (hpre.trans (List.prefix_append _ _))
      obtain ⟨s₂, hstep, hs₂⟩ := exec_cons_eq_some.mp hlast
      obtain rfl := Option.some.inj hs₂
      rcases step_cases hstep with hidle | ⟨u, first, hdecides⟩ |
        ⟨i, sent, cb, broken, rfl, htask, heffect⟩
      · exact hinv.idle hidle
      · exact hinv.decides (consistent_of_exec h) hdecides
      · refine hinv.takesEffect heffect ?_
        intro e he huser hlt
        by_contra hbinds
        exact hcross acts _ t (List.prefix_refl _) ht
          ⟨i, sent, cb, broken, rfl, htask, heffect.unapplied, e, he, huser, hlt, hbinds⟩

/-- **Registry and bindings agree** whenever no call is running, in every run in which no callback
takes effect behind a later one of the opposite kind. -/
theorem bindings_agree {acts : List Action}
    (hcross : ∀ pre a s₁, pre ++ [a] <+: acts → exec step pre start = some s₁ → ¬ s₁.Crosses a) :
    ∀ pre s₁, pre <+: acts → exec step pre start = some s₁ → s₁.tasks = [] →
      ∀ u, s₁.bound u = true ↔ s₁.conns.sockets u ≠ ∅ := by
  intro pre s₁ hpre hrun hquiet u
  have hb := bound_of_exec hrun fun pre' a s₂ hpre' => hcross pre' a s₂ (hpre'.trans hpre)
  rw [← (consistent_of_exec hrun).parity u]
  cases hk : (s₁.decisionsOf u).length with
  | zero =>
      rw [hb.undecided u (List.length_eq_zero_iff.mp hk)]
      simp
  | succ k =>
      rcases hb.last u k hk with ⟨cb, ⟨broken, hmem⟩, -⟩ | ⟨-, hbound⟩
      · rw [hquiet] at hmem
        exact absurd hmem List.not_mem_nil
      · rw [hbound, decide_eq_true_iff]
        omega

/-- The last tab of a user closes while the unbind waits, a new tab connects and binds, and then the
unbind takes effect. -/
def crossedTabs : List Action :=
  [.connect (.ofNat 1) 1, .resume 0 true, .resume 0 true, .resume 0 true,
    .disconnect (.ofNat 1) 1, .connect (.ofNat 1) 2,
    .resume 1 true, .resume 0 true, .resume 0 true, .resume 0 true, .resume 0 true,
    .resume 0 true]

/-- **The unbind of an old generation removes the binding of the new one.** -/
theorem crossedTabs_unbinds :
    ∃ s, exec step crossedTabs start = some s ∧ s.tasks = [] ∧ s.conns.sockets (.ofNat 1) ≠ ∅ ∧
      s.bound (.ofNat 1) = false := by
  have hrun : ((exec step crossedTabs start).map fun s =>
      (s.tasks, decide (s.conns.sockets (.ofNat 1) = ∅), s.bound (.ofNat 1)))
      = some ([], false, false) := by
    decide +kernel
  obtain ⟨s, hs, heq⟩ := Option.map_eq_some_iff.mp hrun
  simp only [Prod.mk.injEq, decide_eq_false_iff_not] at heq
  exact ⟨s, hs, heq.1, heq.2.1, heq.2.2⟩

/-- A tab opens, closes and opens again before any callback takes effect; the effects come in the order of
the decisions. -/
def reopenedTab : List Action :=
  [.connect (.ofNat 1) 1, .disconnect (.ofNat 1) 1, .connect (.ofNat 1) 2, .resume 0 true, .resume 1 true,
    .resume 2 true, .resume 0 true, .resume 0 true, .resume 0 true, .resume 0 true, .resume 0 true,
    .resume 0 true]

theorem bindings_agree_reopenedTab :
    ∃ s, exec step reopenedTab start = some s ∧ s.tasks = [] ∧ s.effects.length = 3 ∧
      s.bound (.ofNat 1) = true := by
  have hrun : ((exec step reopenedTab start).map fun s =>
      (s.tasks, s.effects.length, decide (s.conns.sockets (.ofNat 1) = ∅))) = some ([], 3, false) := by
    decide +kernel
  obtain ⟨s, hs, heq⟩ := Option.map_eq_some_iff.mp hrun
  simp only [Prod.mk.injEq, decide_eq_false_iff_not] at heq
  have hinOrder : Allowed step (fun a s => ¬ s.Crosses a) reopenedTab start := by decide +kernel
  exact ⟨s, hs, heq.1, heq.2.1, (bindings_agree hinOrder.at_prefix reopenedTab s
    (List.prefix_refl _) hs heq.1 (.ofNat 1)).mpr heq.2.2⟩

end System

/-! ## A bind that raises -/

/-- A complete call of a sequential run. `raises` says that `on_first_connect` raises, if it is
called; `broken` are the sockets whose send fails. -/
inductive Call where
  | connect (userId : Uuid) (ws : WebSocket) (raises : Bool)
  | disconnect (userId : Uuid) (ws : WebSocket)
  | push (userId : Uuid) (broken : List WebSocket)

/-- The registry and the broker's bindings between calls. -/
structure Instance where
  conns : Conns
  bound : Uuid → Bool

namespace Instance

/-- An instance that has just started. -/
def start : Instance where
  conns := ∅
  bound := fun _ => false

/-- `connect`: the exception of the callback is logged and swallowed. -/
def connect (s : Instance) (u : Uuid) (ws : WebSocket) (raises : Bool) : Instance where
  conns := (s.conns.connect u ws).2
  bound := if (s.conns.connect u ws).1 ∧ raises = false then Function.update s.bound u true
    else s.bound

/-- `disconnect`. -/
def disconnect (s : Instance) (u : Uuid) (ws : WebSocket) : Instance where
  conns := (s.conns.disconnect u ws).2
  bound := if (s.conns.disconnect u ws).1 then Function.update s.bound u false else s.bound

/-- One call, run to its end; `push` removes the registered sockets whose send failed. -/
def after (s : Instance) : Call → Instance
  | .connect u ws raises => s.connect u ws raises
  | .disconnect u ws => s.disconnect u ws
  | .push u broken => (broken.filter (· ∈ s.conns.sockets u)).foldl
      (fun s ws => s.disconnect u ws) s

/-- The instance after a sequence of calls. -/
def afterAll (calls : List Call) : Instance := calls.foldl after start

/-- A user without sockets is not bound, and nothing empty is stored. -/
structure Unbinds (s : Instance) : Prop where
  noEmpty : s.conns.NoEmpty
  unbound : ∀ u, s.conns.sockets u = ∅ → s.bound u = false

theorem unbinds_start : start.Unbinds where
  noEmpty := Conns.noEmpty_empty
  unbound := fun _ _ => rfl

variable {s : Instance}

theorem Unbinds.connect (h : s.Unbinds) (u : Uuid) (ws : WebSocket) (raises : Bool) :
    (s.connect u ws raises).Unbinds where
  noEmpty := h.noEmpty.connect u ws
  unbound := by
    intro v hv
    have hne : v ≠ u := by
      rintro rfl
      have hmem : ws ∈ (s.conns.connect v ws).2.sockets v :=
        Conns.mem_sockets_connect.mpr (Or.inl ⟨rfl, rfl⟩)
      exact Finset.ne_empty_of_mem hmem hv
    have hold : s.bound v = false := by
      refine h.unbound v ?_
      rw [← hv]
      exact (Conns.sockets_insert_ne _ hne _).symm
    simp only [Instance.connect]
    split_ifs with hd
    · rw [Function.update_of_ne hne]
      exact hold
    · exact hold

theorem sockets_disconnect_ne (s : Instance) {u v : Uuid} (hv : v ≠ u) (ws : WebSocket) :
    (s.disconnect u ws).conns.sockets v = s.conns.sockets v := by
  ext ws'
  simp [Instance.disconnect, Conns.mem_sockets_disconnect, hv]

theorem Unbinds.disconnect (h : s.Unbinds) (u : Uuid) (ws : WebSocket) :
    (s.disconnect u ws).Unbinds where
  noEmpty := h.noEmpty.disconnect u ws
  unbound := by
    intro v hv
    have hlast := Conns.disconnect_fst_iff h.noEmpty u ws
    by_cases hvu : v = u
    · subst hvu
      by_cases hd : (s.conns.disconnect v ws).1 = true
      · simp [Instance.disconnect, hd]
      · have hempty : s.conns.sockets v = ∅ := by
          by_contra hne
          exact hd (hlast.mpr ⟨hne, hv⟩)
        simp only [Instance.disconnect, if_neg hd]
        exact h.unbound v hempty
    · have hold : s.bound v = false := by
        refine h.unbound v ?_
        rw [← sockets_disconnect_ne s hvu ws]
        exact hv
      simp only [Instance.disconnect]
      split_ifs with hd
      · rw [Function.update_of_ne hvu]
        exact hold
      · exact hold

/-- A user with sockets is bound. -/
def Binds (s : Instance) : Prop := ∀ u, s.conns.sockets u ≠ ∅ → s.bound u = true

theorem Binds.disconnect (h : s.Binds) (hs : s.Unbinds) (u : Uuid) (ws : WebSocket) :
    (s.disconnect u ws).Binds := by
  intro v hv
  have hlast := Conns.disconnect_fst_iff hs.noEmpty u ws
  have hold : s.conns.sockets v ≠ ∅ := by
    obtain ⟨ws', hws'⟩ := Finset.nonempty_iff_ne_empty.mpr hv
    exact Finset.ne_empty_of_mem (Conns.mem_sockets_disconnect.mp hws').2
  simp only [Instance.disconnect]
  split_ifs with hd
  · have hne : v ≠ u := by
      rintro rfl
      exact hv (hlast.mp hd).2
    rw [Function.update_of_ne hne]
    exact h v hold
  · exact h v hold

/-- A connect whose callback does not raise leaves every user with sockets bound. -/
theorem Binds.connect (h : s.Binds) {u : Uuid} {ws : WebSocket} {raises : Bool}
    (hok : raises = true → s.conns.sockets u ≠ ∅) : (s.connect u ws raises).Binds := by
  intro v hv
  by_cases hvu : v = u
  · subst hvu
    by_cases hempty : s.conns.sockets v = ∅
    · have hraises : raises = false := by
        cases raises with
        | false => rfl
        | true => exact absurd hempty (hok rfl)
      simp [Instance.connect, Conns.connect, hempty, hraises]
    · simp only [Instance.connect, Conns.connect, hempty, decide_false, Bool.false_eq_true,
        false_and, if_false]
      exact h v hempty
  · have hold : s.bound v = true := by
      refine h v ?_
      rw [← Conns.sockets_insert_ne s.conns hvu (insert ws (s.conns.sockets u))]
      exact hv
    simp only [Instance.connect]
    split_ifs with hd
    · rw [Function.update_of_ne hvu]
      exact hold
    · exact hold

/-- What every disconnect keeps, `push` keeps. -/
theorem after_push {P : Instance → Prop} (hstep : ∀ t u ws, P t → P (t.disconnect u ws))
    (h : P s) (u : Uuid) (broken : List WebSocket) : P (s.after (.push u broken)) := by
  simp only [after]
  generalize broken.filter (· ∈ s.conns.sockets u) = l
  induction l generalizing s with
  | nil => exact h
  | cons ws l ih => exact ih (hstep s u ws h)

theorem Unbinds.after (h : s.Unbinds) (call : Call) : (s.after call).Unbinds := by
  cases call with
  | connect u ws raises => exact h.connect u ws raises
  | disconnect u ws => exact h.disconnect u ws
  | push u broken => exact after_push (fun t u ws ht => ht.disconnect u ws) h u broken

theorem unbinds_afterAll (calls : List Call) : (afterAll calls).Unbinds := by
  induction calls using List.reverseRecOn with
  | nil => exact unbinds_start
  | append_singleton calls call ih =>
      unfold afterAll at ih ⊢
      rw [List.foldl_append]
      exact ih.after call

/-- In every state of the run in which a user has sockets and no binding, its next connect calls
`on_first_connect`; and a connect whose callback does not raise leaves its user bound. -/
def BindRetried (calls : List Call) : Prop :=
  (∀ pre, pre <+: calls → ∀ u ws, (afterAll pre).conns.sockets u ≠ ∅ →
      (afterAll pre).bound u = false → ((afterAll pre).conns.connect u ws).1 = true) ∧
    ∀ pre u ws, pre ++ [.connect u ws false] <+: calls →
      (afterAll (pre ++ [.connect u ws false])).bound u = true

/-- The run lemma: while no callback raises, users with sockets are bound. -/
theorem binds_afterAll {calls : List Call}
    (h : ∀ pre u ws, pre ++ [.connect u ws true] <+: calls →
      (afterAll pre).conns.sockets u ≠ ∅) : (afterAll calls).Binds := by
  induction calls using List.reverseRecOn with
  | nil =>
      intro u hu
      exact absurd rfl hu
  | append_singleton calls call ih =>
      have hrest := ih fun pre u ws hpre => h pre u ws (hpre.trans (List.prefix_append _ _))
      have hunbinds := unbinds_afterAll calls
      have hlast : afterAll (calls ++ [call]) = (afterAll calls).after call := by
        unfold afterAll
        rw [List.foldl_append]
        rfl
      rw [hlast]
      cases call with
      | connect u ws raises =>
          refine hrest.connect ?_
          rintro rfl
          exact h calls u ws (List.prefix_refl _)
      | disconnect u ws => exact hrest.disconnect hunbinds u ws
      | push u broken =>
          exact (after_push (P := fun t => t.Unbinds ∧ t.Binds)
            (fun t u ws ht => ⟨ht.1.disconnect u ws, ht.2.disconnect ht.1 u ws⟩)
            ⟨hunbinds, hrest⟩ u broken).2

/-- The state after a first connect whose callback raised: a socket, no binding, and the next connect
is not a first one. -/
theorem forgets_of_raises {calls : List Call} {u : Uuid} (ws : WebSocket)
    (h : (afterAll calls).conns.sockets u = ∅) :
    (afterAll (calls ++ [.connect u ws true])).conns.sockets u ≠ ∅ ∧
      (afterAll (calls ++ [.connect u ws true])).bound u = false := by
  have hlast : afterAll (calls ++ [.connect u ws true]) = (afterAll calls).connect u ws true := by
    unfold afterAll
    rw [List.foldl_append]
    rfl
  rw [hlast]
  constructor
  · have hmem : ws ∈ ((afterAll calls).conns.connect u ws).2.sockets u :=
      Conns.mem_sockets_connect.mpr (Or.inl ⟨rfl, rfl⟩)
    exact Finset.ne_empty_of_mem hmem
  · have hold := (unbinds_afterAll calls).unbound u h
    simp [Instance.connect, hold]

/-- **A failed bind is attempted again exactly when none fails**: every connect whose callback would
raise finds its user registered, and does not call it. -/
theorem bind_retried_iff (calls : List Call) :
    BindRetried calls ↔ ∀ pre u ws, pre ++ [.connect u ws true] <+: calls →
      (afterAll pre).conns.sockets u ≠ ∅ := by
  constructor
  · rintro ⟨hretried, -⟩ pre u ws hpre hempty
    obtain ⟨hsockets, hbound⟩ := forgets_of_raises ws hempty
    have hfirst := hretried _ hpre u ws hsockets hbound
    exact hsockets (by simpa [Conns.connect] using hfirst)
  · intro h
    have hbinds : ∀ pre, pre <+: calls → (afterAll pre).Binds := fun pre hpre =>
      binds_afterAll fun pre' u ws hpre' => h pre' u ws (hpre'.trans hpre)
    constructor
    · intro pre hpre u ws hsockets hbound
      rw [hbinds pre hpre u hsockets] at hbound
      exact absurd hbound (by decide)
    · intro pre u ws hpre
      refine hbinds _ hpre u ?_
      have hlast : afterAll (pre ++ [.connect u ws false]) = (afterAll pre).connect u ws false := by
        unfold afterAll
        rw [List.foldl_append]
        rfl
      rw [hlast]
      have hmem : ws ∈ ((afterAll pre).conns.connect u ws).2.sockets u :=
        Conns.mem_sockets_connect.mpr (Or.inl ⟨rfl, rfl⟩)
      exact Finset.ne_empty_of_mem hmem

/-- **One failed bind, and no later tab of the user is bound.** -/
theorem failedBind_forgotten :
    ¬ BindRetried [.connect (.ofNat 1) 1 true, .connect (.ofNat 1) 2 false] := by
  rintro ⟨-, hbound⟩
  have h := hbound [.connect (.ofNat 1) 1 true] (.ofNat 1) 2 (List.prefix_refl _)
  have hfalse : (afterAll [.connect (.ofNat 1) 1 true, .connect (.ofNat 1) 2 false]).bound
      (.ofNat 1) = false := by
    decide +kernel
  exact absurd (hfalse.symm.trans h) (by decide)

end Instance

end HighLoad.Ws
