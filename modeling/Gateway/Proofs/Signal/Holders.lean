import Gateway.Proofs.Signal.Once
/-!
# What keeps a token alive

A token has at least as many holders as names, futures and tasks that need it
(`Standing.Held`). So a token for whose firing a future still waits is alive.
-/
namespace Gateway.Signal

/-- How often a future holds the token `n`. -/
def Future.holds (n : Nat) (u : Future) : Nat :=
  match u.source with
  | .firing m _ => if m = n ∧ u.completed = false then 1 else 0
  | .wait _ _ _ => 0

variable {R : Type → Type}

/-- How many holders a token has, none if it is gone. -/
def World.holders (w : World R) (n : Nat) : Nat := ((w.tokens.get? n).map (·.holders)).getD 0

/-- How many names, futures and tasks need a token. -/
def Standing.needs (a : Standing R) (n : Nat) : Nat :=
  a.world.tokenNames.sum (fun m => if m = n then 1 else 0) + a.world.futures.sum (Future.holds n) + a.held.count n

/-- No token has fewer holders than need it, so a token that is needed is alive. -/
def Standing.Held (a : Standing R) : Prop := ∀ n, a.needs n ≤ a.world.holders n

theorem Standing.held_empty : Standing.Held (⟨{}, [], []⟩ : Standing R) := fun _ => Nat.le_refl 0

variable {w w' : World R} {d d' : List Callback} {h h' : List Nat}

/-- Nothing is needed that was not before, and no holder goes. -/
theorem Standing.Held.mono (hh : Standing.Held ⟨w, d, h⟩)
    (hn : ∀ n, w'.tokenNames.sum (fun m => if m = n then 1 else 0) ≤ w.tokenNames.sum fun m => if m = n then 1 else 0)
    (hf : ∀ n, w'.futures.sum (Future.holds n) ≤ w.futures.sum (Future.holds n))
    (ht : ∀ n, w.holders n ≤ w'.holders n) : Standing.Held ⟨w', d', h⟩ := by
  intro n
  have := hh n
  have := hn n
  have := hf n
  have := ht n
  simp only [Standing.needs] at *
  omega

theorem World.holders_congr (ht : w'.tokens = w.tokens) (n : Nat) : w'.holders n = w.holders n := by
  rw [holders, holders, ht]

/-! ## Futures -/

theorem Future.holds_decide (n : Nat) (u : Future) (o : Outcome) : (u.decide o).holds n = u.holds n := by
  rw [holds, holds, decide_source, decide_completed]

theorem World.sum_deliver (w : World R) (f : Nat) (o : Outcome) (n : Nat) :
    (w.deliver f o).futures.sum (Future.holds n) = w.futures.sum (Future.holds n) := by
  unfold deliver
  cases hf : w.futures.get? f with
  | none => rfl
  | some u =>
    dsimp only
    split
    · rfl
    · rename_i ho
      have hsum := Table.sum_insert (f := Future.holds n) hf (u.decide o)
      rw [Future.holds_decide, Future.decide, if_neg ho] at hsum
      cases u.watcher <;> exact Nat.add_right_cancel hsum

theorem World.sum_deliverAll (w : World R) (o : Outcome) (n : Nat) (owners : List Nat) :
    (owners.foldl (fun w f => w.deliver f o) w).futures.sum (Future.holds n) = w.futures.sum (Future.holds n) := by
  induction owners generalizing w with
  | nil => rfl
  | cons f owners ih =>
    rw [List.foldl_cons, ih]
    exact w.sum_deliver f o n

theorem World.sum_abortWait (w : World R) (v ticket n : Nat) :
    (w.abortWait v ticket).futures.sum (Future.holds n) = w.futures.sum (Future.holds n) := by
  unfold abortWait
  cases w.condvars.get? v with
  | none => rfl
  | some cv =>
    dsimp only
    cases cv.owner? ticket with
    | none => rfl
    | some f => exact sum_deliver _ f .aborted n

theorem World.sum_releaseAll (w : World R) (v : Nat) (o : Outcome) (n : Nat) :
    (w.releaseAll v o).futures.sum (Future.holds n) = w.futures.sum (Future.holds n) := by
  unfold releaseAll
  cases w.condvars.get? v with
  | none => rfl
  | some cv => exact sum_deliverAll _ o n cv.release.1

/-! ## Tokens -/

theorem World.holders_insert_same {n : Nat} {t t' : Token R} (hn : w.tokens.get? n = some t)
    (ht : w'.tokens = w.tokens.insert n t') (hh : t'.holders = t.holders) (m : Nat) : w'.holders m = w.holders m := by
  rw [holders, holders, ht, Table.get?_insert]
  split
  · rename_i hnm
    rw [← hnm, hn, Option.map_some, Option.map_some, hh]
  · rfl

theorem World.holders_hold {n : Nat} {t : Token R} (hn : w.tokens.get? n = some t) (m : Nat) :
    (w.hold n).holders m = w.holders m + if n = m then 1 else 0 := by
  rw [holders, holders, hold, Table.get?_modify]
  split
  · rename_i hnm
    rw [← hnm, hn]
    rfl
  · rfl

theorem World.holders_insert_new {v : World R} {n : Nat} {t : Token R} (hn : w.holders n = 0)
    (h₁ : ∀ m, v.holders m = w.holders m) (hh : t.holders = 1) (ht : w'.tokens = v.tokens.insert n t) (m : Nat) :
    w'.holders m = w.holders m + if n = m then 1 else 0 := by
  rw [← h₁ m, holders, holders, ht, Table.get?_insert]
  split
  · rename_i hnm
    have hzero : v.holders m = 0 := hnm ▸ (h₁ n).trans hn
    rw [holders] at hzero
    rw [hzero, Option.map_some, hh]
    rfl
  · rfl

section Tokens

variable [Registry R]

theorem World.holders_register {n : Nat} {t : Token R} (hn : w.tokens.get? n = some t) (cb : Callback) (m : Nat) :
    (w.register n t cb).1.holders m = w.holders m := by
  refine holders_insert_same hn rfl ?_ m
  rfl

theorem World.holders_unlink (w : World R) (l : Link) (m : Nat) : (w.unlink l).holders m = w.holders m := by
  rw [holders, holders, unlink, Table.get?_modify]
  split
  · cases w.tokens.get? m <;> rfl
  · rfl

theorem World.holders_unlink? (w : World R) (l : Option Link) (m : Nat) : (w.unlink? l).holders m = w.holders m := by
  cases l with
  | none => rfl
  | some l => exact w.holders_unlink l m

theorem World.holders_takeAll (w : World R) (n m : Nat) : (w.takeAll n).1.holders m = w.holders m := by
  rw [holders, holders, get?_takeAll]
  split
  · cases w.tokens.get? m <;> rfl
  · rfl

/-- A token keeps its holders but the one that gives it up, and goes with the last. -/
theorem World.holders_release (w : World R) (n m : Nat) :
    (w.release n).holders m = w.holders m - if n = m then 1 else 0 := by
  unfold release
  cases hn : w.tokens.get? n with
  | none =>
    dsimp only
    split
    · rename_i hnm
      rw [holders, ← hnm, hn]
      rfl
    · rfl
  | some t =>
    dsimp only
    split
    · rename_i hle
      rw [holders_unlink?, holders, Table.get?_erase]
      split
      · rename_i hnm
        rw [holders, ← hnm, hn]
        show 0 = t.holders - 1
        omega
      · rfl
    · rw [holders, Table.get?_insert]
      split
      · rename_i hnm
        rw [holders, ← hnm, hn]
        rfl
      · rfl

end Tokens

/-! ## Moves -/

theorem Standing.Held.decides (hh : Standing.Held ⟨w, d, h⟩) {p : Nat → Prop} [DecidablePred p] {o : Outcome}
    (hd : World.Decides p o w w') (hs : ∀ n, w'.futures.sum (Future.holds n) = w.futures.sum (Future.holds n)) :
    Standing.Held ⟨w', d', h⟩ :=
  hh.mono (fun n => Nat.le_of_eq (by rw [hd.tokenNames])) (fun n => Nat.le_of_eq (hs n))
    fun n => Nat.le_of_eq (World.holders_congr hd.tokens n).symm

/-- A future is changed, and holds no more than before. -/
theorem Standing.Held.insertFuture (hh : Standing.Held ⟨w, d, h⟩) {f : Nat} {u u' : Future}
    (hf : w.futures.get? f = some u) (hn : w'.tokenNames = w.tokenNames) (hfut : w'.futures = w.futures.insert f u')
    (ht : ∀ n, w.holders n ≤ w'.holders n) (hu : ∀ n, u'.holds n ≤ u.holds n) : Standing.Held ⟨w', d', h⟩ := by
  refine hh.mono (fun n => Nat.le_of_eq (by rw [hn])) (fun n => ?_) ht
  have hsum := Table.sum_insert (f := Future.holds n) hf u'
  have := hu n
  rw [hfut]
  omega

/-- A future gives up its token, which is held by a task from then on. -/
theorem Standing.Held.giveUp (hh : Standing.Held ⟨w, d, h⟩) {n : Nat} (hn : w'.tokenNames = w.tokenNames)
    (hf : ∀ m, w'.futures.sum (Future.holds m) + (if n = m then 1 else 0) ≤ w.futures.sum (Future.holds m))
    (ht : ∀ m, w.holders m ≤ w'.holders m) : Standing.Held ⟨w', d', n :: h⟩ := by
  intro m
  have := hh m
  have := hf m
  have := ht m
  simp only [Standing.needs, List.count_cons, beq_iff_eq, hn] at *
  omega

/-- A new token is held by the task that made it. -/
theorem Standing.Held.new (hh : Standing.Held ⟨w, d, h⟩) {n : Nat} (hn : w'.tokenNames = w.tokenNames)
    (hf : w'.futures = w.futures) (ht : ∀ m, w'.holders m = w.holders m + if n = m then 1 else 0) :
    Standing.Held ⟨w', d', n :: h⟩ := by
  intro m
  have := hh m
  have := ht m
  simp only [Standing.needs, List.count_cons, beq_iff_eq, hn, hf] at *
  omega

theorem Future.holds_firing {u : Future} {n : Nat} {l : Option Link} (hs : u.source = .firing n l)
    (hc : u.completed = false) (m : Nat) : u.holds m = if n = m then 1 else 0 := by
  simp only [holds, hs, hc, and_true]

theorem Future.holds_completed {u : Future} (n : Nat) (hc : u.completed = true) : u.holds n = 0 := by
  rw [holds, hc]
  cases u.source with
  | firing m l => exact if_neg fun h => nomatch h.2
  | wait v ticket l => rfl

theorem Move.held [Registry R] {a b : Standing R} {ds : List Deed} (hm : Move a ds b)
    (hlt : ∀ n t, a.world.tokens.get? n = some t → n < a.world.next) (ha : a.Held) : b.Held := by
  have hnext : a.world.holders a.world.next = 0 := by
    rw [World.holders]
    cases hn : a.world.tokens.get? a.world.next with
    | none => rfl
    | some t => exact absurd (hlt _ t hn) (Nat.lt_irrefl _)
  cases hm with
  | note | rename | call | makeCondvar => exact ha
  | @nameToken w d h name n =>
    intro m
    have := ha m
    simp only [Standing.needs, List.count_cons, beq_iff_eq, List.count_append] at this ⊢
    show _ ≤ w.holders m
    cases hold : w.tokenNames.get? name with
    | none =>
      have := Table.sum_insert_le w.tokenNames (fun k => if k = m then 1 else 0) name n
      simp only [Option.toList_none, List.count_nil]
      omega
    | some k =>
      have := Table.sum_insert (f := fun k => if k = m then 1 else 0) hold n
      simp only [Option.toList_some, List.count_cons, List.count_nil, beq_iff_eq]
      omega
  | @unnameToken w d h name n hn =>
    intro m
    have := ha m
    have := Table.sum_erase_add_le (fun k => if k = m then 1 else 0) hn
    simp only [Standing.needs, List.count_cons, beq_iff_eq] at *
    show _ ≤ w.holders m
    omega
  | hold hn => exact ha.new rfl rfl (World.holders_hold hn)
  | @release w d h n =>
    intro m
    have := ha m
    have := w.holders_release n m
    obtain ⟨tokens, heq⟩ := w.release_eq n
    have hnames : (w.release n).tokenNames = w.tokenNames := by rw [heq]
    have hfutures : (w.release n).futures = w.futures := by rw [heq]
    simp only [Standing.needs, List.count_cons, beq_iff_eq, hnames, hfutures] at *
    omega
  | makeToken => exact ha.new rfl rfl (World.holders_insert_new hnext (fun _ => rfl) rfl rfl)
  | @makeChild w d h p t hp =>
    exact ha.new rfl rfl (World.holders_insert_new (v := (World.register _ p t _).1) hnext
      (World.holders_register hp _) rfl rfl)
  | @fire w d h n | @fireChild w d h n =>
    obtain ⟨tokens, heq⟩ := w.takeAll_eq n
    refine ha.mono (fun m => ?_) (fun m => ?_) fun m => Nat.le_of_eq (w.holders_takeAll n m).symm <;>
      exact Nat.le_of_eq (by rw [heq])
  | abort v ticket => exact ha.decides (World.decides_abortWait _ v ticket) (World.sum_abortWait _ v ticket)
  | complete f => exact ha.decides (World.decides_deliver _ f .ok) (World.sum_deliver _ f .ok)
  | connect hn =>
    exact ha.mono (fun _ => Nat.le_refl _) (fun _ => Nat.le_refl _)
      fun m => Nat.le_of_eq (World.holders_register hn _ m).symm
  | @dropConnection w d h c =>
    have hholders : ∀ m, (w.dropConnection c).holders m = w.holders m := by
      intro m
      unfold World.dropConnection
      cases w.connections.get? c with
      | none => rfl
      | some k => exact World.holders_unlink _ k.link m
    obtain ⟨tokens, connections, heq⟩ := w.dropConnection_eq c
    refine ha.mono (fun m => ?_) (fun m => ?_) fun m => Nat.le_of_eq (hholders m).symm <;>
      exact Nat.le_of_eq (by rw [heq])
  | dropCondvar v => exact ha.decides (World.decides_dropCondvar _ v) (World.sum_releaseAll _ v .aborted)
  | notify v => exact ha.decides (World.decides_releaseAll _ v .ok) (World.sum_releaseAll _ v .ok)
  | wait hv =>
    exact ha.mono (fun _ => Nat.le_refl _) (fun m => Table.sum_insert_le _ (Future.holds m) _ _) fun _ => Nat.le_refl _
  | @waitFor w d h v cv n t hv hn =>
    have hadd : Standing.Held ⟨w.addWaitTo v cv n t, d, h⟩ :=
      ha.mono (fun _ => Nat.le_refl _) (fun m => Table.sum_insert_le _ (Future.holds m) _ _)
        fun m => Nat.le_of_eq (World.holders_register (w := { w with next := _, condvars := _ }) hn _ m).symm
    show Standing.Held ⟨w.addWaitFor v cv n t, d, h⟩
    unfold World.addWaitFor
    dsimp only
    split
    · exact hadd.decides (World.decides_abortWait _ v cv.nextTicket) (World.sum_abortWait _ v cv.nextTicket)
    · exact hadd
  | endWait hf hs ho =>
    exact ha.insertFuture hf rfl rfl (fun _ => Nat.le_refl _)
      fun n => Nat.le_of_eq (by rw [Future.holds, Future.holds, hs])
  | @dropWait w d h f u v ticket l hf hs =>
    have hd := w.decides_abortWait v ticket
    show Standing.Held ⟨w.dropFuture f, d, h⟩
    rw [World.dropFuture, hf]
    simp only [hs]
    refine ha.mono (fun m => ?_) (fun m => ?_) fun m => Nat.le_of_eq ?_
    · refine Nat.le_of_eq (congrArg (Table.sum _) ?_)
      cases l <;> exact hd.tokenNames
    · refine Nat.le_trans (Nat.le_of_eq ?_) (Nat.le_trans (Table.sum_erase_le _ _ f)
        (Nat.le_of_eq (w.sum_abortWait v ticket m)))
      cases l <;> rfl
    · rw [World.holders_unlink?]
      exact (World.holders_congr hd.tokens m).symm
  | @cancelled w d h n =>
    intro m
    have := ha m
    have hsum := Table.sum_insert_le w.futures (Future.holds m) w.next { source := .firing n none }
    rw [Future.holds_firing rfl rfl] at hsum
    simp only [Standing.needs, List.count_cons, beq_iff_eq] at this ⊢
    show _ ≤ w.holders m
    omega
  | watch hf name => exact ha.insertFuture hf rfl rfl (fun _ => Nat.le_refl _) fun n => Nat.le_refl _
  | watchFiring hf hs hc hn ht name =>
    exact ha.insertFuture hf rfl rfl (fun m => Nat.le_of_eq (World.holders_register hn _ m).symm)
      fun n => Nat.le_of_eq (by rw [Future.holds, Future.holds, hs])
  | @findFired w d h f u n t hf hs hc hn ht =>
    refine ha.giveUp rfl (fun m => ?_) fun m => Nat.le_of_eq ?_
    · have hsum := Table.sum_insert (f := Future.holds m) hf { u with completed := true }
      rw [Future.holds_firing hs hc, Future.holds_completed m rfl] at hsum
      exact Nat.le_of_eq hsum
    · exact ((World.holders_unlink _ _ m).trans (World.holders_register hn _ m)).symm
  | @endFiring w d h f u n l o hf hs ho hc =>
    refine ha.giveUp rfl (fun m => ?_) fun m => Nat.le_of_eq (w.holders_unlink l m).symm
    have hsum := Table.sum_insert (f := Future.holds m) hf { u with completed := true }
    rw [Future.holds_firing hs hc, Future.holds_completed m rfl] at hsum
    exact Nat.le_of_eq hsum
  | dropEnded hf hs hc =>
    exact ha.mono (fun _ => Nat.le_refl _) (fun m => Table.sum_erase_le _ (Future.holds m) _) fun _ => Nat.le_refl _
  | @dropFiring w d h f u n l hf hs hc =>
    refine ha.giveUp (by cases l <;> rfl) (fun m => ?_) fun m => Nat.le_of_eq ?_
    · have hsum := Table.sum_erase_add_le (Future.holds m) hf
      rw [Future.holds_firing hs hc] at hsum
      refine Nat.le_trans (Nat.le_of_eq ?_) hsum
      cases l <;> rfl
    · exact (World.holders_unlink? (R := R) { w with futures := w.futures.erase f } l m).symm

end Gateway.Signal
