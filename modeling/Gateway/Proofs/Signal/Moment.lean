import Gateway.Signal.Run
/-!
# Moments of a run

A moment is a world and what is left to do in it. From one moment a run goes on to
others, task by task, and takes a new command when nothing is left to do (`Reaches`).
A firing is in progress as long as something is left to do. What is carried out in one
go by `World.perform` is such a run.
-/
namespace Gateway.Signal

/-- A point of a run: the world, and what is left to do, the next task first. -/
structure Moment (R : Type → Type) where
  world : World R := {}
  tasks : List Task := []

namespace Moment

variable {R : Type → Type} [Registry R]

/-- A run gets from one moment to another by the tasks `done`, each in the world in which it was done. -/
inductive Reaches (m : Moment R) : (done : List (World R × Task)) → Moment R → Prop where
  | refl : Reaches m [] m
  | command {done : List (World R × Task)} {w : World R} (h : Reaches m done ⟨w, []⟩) (c : Command) :
    Reaches m done ⟨w, [.run none c]⟩
  | task {done : List (World R × Task)} {w : World R} {t : Task} {rest : List Task} (h : Reaches m done ⟨w, t :: rest⟩) :
    Reaches m (done ++ [(w, t)]) ⟨(w.step t).1, (w.step t).2 ++ rest⟩

variable {m m' m'' : Moment R} {done done' : List (World R × Task)}

theorem Reaches.trans (h : Reaches m done m') (h' : Reaches m' done' m'') : Reaches m (done ++ done') m'' := by
  induction h' with
  | refl => rwa [List.append_nil]
  | command _ c ih => exact .command ih c
  | task _ ih =>
    rw [← List.append_assoc]
    exact .task ih

/-- What is left to do gets done, or is still left. -/
theorem Reaches.tasks_done (h : Reaches m done m') {t : Task} (ht : t ∈ m.tasks) :
    t ∈ done.map (·.2) ∨ t ∈ m'.tasks := by
  induction h with
  | refl => exact .inr ht
  | command _ c ih => exact ih.imp_right fun hleft => (nomatch hleft)
  | task _ ih =>
    rw [List.map_append, List.mem_append]
    rcases ih with hdone | hleft
    · exact .inl (.inl hdone)
    · rcases List.mem_cons.1 hleft with rfl | hrest
      · exact .inl (.inr (List.mem_singleton.2 rfl))
      · exact .inr (List.mem_append_right _ hrest)

theorem reaches_runTasks (n : Nat) (w : World R) (tasks : List Task) :
    ∃ done, Reaches ⟨w, tasks⟩ done ⟨(World.runTasks n w tasks).1, (World.runTasks n w tasks).2⟩ := by
  induction n generalizing w tasks with
  | zero => exact ⟨[], .refl⟩
  | succ n ih =>
    cases tasks with
    | nil => exact ⟨[], .refl⟩
    | cons t rest =>
      obtain ⟨done, hd⟩ := ih (w.step t).1 ((w.step t).2 ++ rest)
      exact ⟨_, (Reaches.task .refl).trans hd⟩

end Moment

end Gateway.Signal
