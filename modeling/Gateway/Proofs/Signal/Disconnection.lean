import Gateway.Proofs.Signal.Refinement
/-!
# Dropped connections

A firing takes all callbacks of its token before it invokes the first of them. So a
connection that is dropped by one of them may be dropped too late: its callback is invoked
after the drop exactly if a firing in progress had taken it by then (`dropped_invoked`).
While no firing is in progress, it is disconnected for good.
-/
namespace Gateway.Signal

/-- No callback of a connection that is gone is taken from then on. -/
theorem World.Sound.due_of_dropped {v : Moment Arrivals} (hs : v.world.Sound) {c : Nat} (hlt : c < v.world.next)
    (hc : v.world.connections.get? c = none) {later : List (World Arrivals × Task)} {v' : Moment Arrivals}
    (hr : v.Reaches later v') {name : Name} {script : List Command}
    (hi : .invoke (.script c name script) ∈ later.map (·.2)) : .invoke (.script c name script) ∈ v.tasks := by
  have hkept : ∀ x l, v.world.kept? x ≠ some (l, .connection c) := by
    intro x l hx
    obtain ⟨-, k, hk, -⟩ := World.keptBy_of_kept? hx
    exact nomatch hc.symm.trans hk
  have hdue := (hr.moves.due_of_unkept hs (.script c name script) hlt hkept).2 (.inr (mem_deedsOf.2 hi))
  exact mem_callbacks.1 hdue

/-- The connection `c` is gone, and from now on its callback is invoked exactly if a firing has taken it. -/
theorem dropped_invoked {done later : List (World Slots × Task)} {m m' : Moment Slots}
    (hr : Moment.Reaches {} done m) {c : Nat} (hlt : c < m.world.next) (hc : m.world.connections.get? c = none)
    (hr' : m.Reaches later m') (name : Name) (script : List Command) :
    (.invoke (.script c name script) ∈ later.map (·.2) → .invoke (.script c name script) ∈ m.tasks) ∧
      (m'.tasks = [] → .invoke (.script c name script) ∈ m.tasks → .invoke (.script c name script) ∈ later.map (·.2)) := by
  refine ⟨fun hi => ?_, fun hend ht => ?_⟩
  · obtain ⟨κ, done', v, -, hm, -, hsound, -⟩ := hr.sound
    obtain ⟨κ', later', v', hv', -, hlater⟩ := hr'.mirrored hm
    rw [hm.tasks]
    rw [← hlater.tasks] at hi
    refine hsound.due_of_dropped (hm.world.next ▸ hlt) ?_ hv' hi
    rcases hm.world.connections.cases c with ⟨-, hnone⟩ | ⟨k, -, hk, -⟩
    · exact hnone
    · exact nomatch hc.symm.trans hk
  · exact (hr'.tasks_done ht).resolve_right (hend ▸ List.not_mem_nil)

/-- The first callback of a firing drops the connection of the second, which is invoked all the same. -/
theorem drops_late : ∃ done, ∃ m m' : Moment Slots, Moment.Reaches {} done m ∧ (∃ later, m.Reaches later m') ∧
    2 < m.world.next ∧ m.world.connections.get? 2 = none ∧
    done.map (·.2) = [.run none (.token ['t'] none), .run none (.connect ['t'] ['a'] [.drop ['b']]),
      .run none (.connect ['t'] ['b'] []), .run none (.fire ['t']), .invoke (.script 1 ['a'] [.drop ['b']]),
      .run (some ['a']) (.drop ['b'])] ∧
    m.tasks = [.invoke (.script 2 ['b'] []), .finish (some 0)] ∧ m'.tasks = [] := by
  have htoken := (Moment.Reaches.refl (m := ({} : Moment Slots))).command (.token ['t'] none)
  have hfirst := htoken.task.command (.connect ['t'] ['a'] [.drop ['b']])
  have hsecond := hfirst.task.command (.connect ['t'] ['b'] [])
  have hfire := hsecond.task.command (.fire ['t'])
  exact ⟨_, _, _, hfire.task.task.task, Moment.reaches_runTasks 2 _ _, by decide, rfl, rfl, rfl, rfl⟩

theorem dropped_invoked_late : ∃ done later, ∃ m m' : Moment Slots, Moment.Reaches {} done m ∧ m.Reaches later m' ∧
    m.world.connections.get? 2 = none ∧ .invoke (.script 2 ['b'] []) ∈ later.map (·.2) := by
  obtain ⟨done, m, m', hr, ⟨later, hr'⟩, hlt, hc, -, htasks, hend⟩ := drops_late
  refine ⟨done, later, m, m', hr, hr', hc, (dropped_invoked hr hlt hc hr' ['b'] []).2 hend ?_⟩
  rw [htasks]
  exact List.mem_cons_self

/-- It is not so that a connection that is dropped disconnects its callback whenever that has not been invoked yet. -/
theorem not_disconnected : ¬ ∀ (done later : List (World Slots × Task)) (m m' : Moment Slots) (c : Nat) (name : Name)
    (script : List Command), Moment.Reaches {} done m → c < m.world.next → m.world.connections.get? c = none →
    m.Reaches later m' → .invoke (.script c name script) ∉ done.map (·.2) →
    .invoke (.script c name script) ∉ later.map (·.2) := by
  intro h
  obtain ⟨done, m, m', hr, ⟨later, hr'⟩, hlt, hc, hdone, htasks, hend⟩ := drops_late
  refine h done later m m' 2 ['b'] [] hr hlt hc hr' ?_ ?_
  · rw [hdone]
    simp
  · refine (hr'.tasks_done ?_).resolve_right (hend ▸ List.not_mem_nil)
    rw [htasks]
    exact List.mem_cons_self

end Gateway.Signal
